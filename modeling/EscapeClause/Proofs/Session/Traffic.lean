import EscapeClause.Proofs.Session.History
import Mathlib.Data.List.Basic
import Mathlib.Data.List.Induction

/-! What the engine of a session is given. An engine can be watched, which changes nothing
but that the texts it is given are kept. Main statement: these are the native texts of the
statements that are submitted while the session is open, under the flags that the history
has set, one for each that has one, and every reply is the answer of the engine to its text. -/

namespace EscapeClause

section Engine

variable {σ γ : Type}

/-- The same engine, with the texts it is given kept beside its state. -/
def Engine.watched (e : Engine σ γ) : Engine (σ × List String) γ where
  prepare s text := ((e.prepare s.1 text).1, (e.prepare s.1 text).2, s.2 ++ [text])

/-- The state of an engine that was given some texts. -/
def Engine.after (e : Engine σ γ) (state : σ) (texts : List String) : σ :=
  texts.foldl (fun s text => (e.prepare s text).2) state

theorem Engine.after_append (e : Engine σ γ) (state : σ) (texts more : List String) :
    e.after state (texts ++ more) = e.after (e.after state texts) more :=
  List.foldl_append

end Engine

/-- The native text of a statement, if it has one. -/
def nativeTexts (sql : String) (escapeProcessing : Bool) : List String :=
  match nativeText sql escapeProcessing with
  | .ok t => [t.text]
  | .error _ => []

/-- The text that an engine is given for a request, if any, where the statements have the
flags `flag?`. -/
def Request.given (isClosed : Bool) (flag? : Nat → Option Bool) (r : Request) : List String :=
  if isClosed then []
  else match r.submission? flag? with
    | some (sql, b) => nativeTexts sql b
    | none => []

theorem Request.given_of_submission {flag? : Nat → Option Bool} {r : Request} {sql : String}
    {b : Bool} (h : r.submission? flag? = some (sql, b)) (isClosed : Bool) :
    r.given isClosed flag? = if isClosed then [] else nativeTexts sql b := by
  rw [given, h]

theorem Request.given_of_not_submission {flag? : Nat → Option Bool} {r : Request}
    (h : r.submission? flag? = none) (isClosed : Bool) : r.given isClosed flag? = [] := by
  rw [given, h]
  split <;> rfl

namespace History

/-- What the engine is given for a request behind the history `past`. -/
def given (config : Config) (past : List Request) (r : Request) : List String :=
  r.given (decide (.close ∈ past)) (flag? config past)

/-- What the engine is given for the requests, each behind those in front of it. -/
def traffic (config : Config) (rs : List Request) : List String :=
  rs.zipIdx.flatMap fun p => given config (rs.take p.2) p.1

theorem traffic_concat (config : Config) (past : List Request) (r : Request) :
    traffic config (past ++ [r]) = traffic config past ++ given config past r := by
  have hfront : ∀ p ∈ past.zipIdx, (past ++ [r]).take p.2 = past.take p.2 := by
    intro p hp
    have hlt := List.snd_lt_of_mem_zipIdx hp
    rw [Nat.add_zero] at hlt
    exact List.take_append_of_le_length (Nat.le_of_lt hlt)
  rw [traffic, List.zipIdx_append, List.flatMap_append, traffic]
  congr 1
  · exact List.flatMap_congr fun p hp => by rw [hfront p hp]
  · simp

end History

variable {σ γ : Type}

namespace Session

/-- The session with its engine watched from now on, behind the texts `seen`. -/
def watched (s : Session σ γ) (seen : List String) : Session (σ × List String) γ :=
  ⟨s.engine.watched, (s.state, seen), s.config, s.isClosed⟩

theorem submit_watched (s : Session σ γ) (seen : List String) (sql : String) (b : Bool) :
    (s.watched seen).submit sql b =
      ⟨(s.submit sql b).result,
        (s.submit sql b).session.watched (seen ++ if s.isClosed then [] else nativeTexts sql b),
        (s.submit sql b).events⟩ := by
  cases hc : s.isClosed with
  | true => simp [submit, watched, hc]
  | false =>
    cases ht : nativeText sql b with
    | error e => simp [submit, process, nativeTexts, watched, hc, ht]
    | ok t =>
      rcases hp : s.engine.prepare s.state t.text with ⟨reason | command, state⟩
      all_goals simp [submit, process, nativeTexts, watched, Engine.watched, hc, ht, hp]

end Session

namespace Client

/-- The client with its engine watched from now on, behind the texts `seen`. -/
def watched (c : Client σ γ) (seen : List String) : Client (σ × List String) γ :=
  ⟨c.session.watched seen, c.statements⟩

/-- What the engine of a client is given in the course of some requests. -/
def received (c : Client σ γ) (rs : List Request) : List String :=
  ((c.watched []).run rs).session.state.2

def given (c : Client σ γ) (r : Request) : List String := r.given c.session.isClosed c.flag?

theorem turn_watched {α : Type} (c : Client σ γ) (seen texts : List String) (reply : α → Reply γ)
    (o : Outcome σ γ α) :
    (c.watched seen).turn reply ⟨o.result, o.session.watched texts, o.events⟩ =
      ⟨(c.turn reply o).reply, (c.turn reply o).client.watched texts, (c.turn reply o).events⟩ := by
  rw [turn, turn]
  cases o.result <;> rfl

/-- Watching the engine shows what it is given and changes nothing else. -/
theorem step_watched (c : Client σ γ) (seen : List String) (r : Request) :
    (c.watched seen).step r =
      ⟨(c.step r).reply, (c.step r).client.watched (seen ++ c.given r), (c.step r).events⟩ := by
  cases hs : c.submission? r with
  | some p =>
    have hw : (c.watched seen).submission? r = some p := hs
    rw [step_of_submission hw, step_of_submission hs, given, Request.given_of_submission hs,
      ← turn_watched]
    exact congrArg _ (c.session.submit_watched seen p.1 p.2)
  | none =>
    rw [given, Request.given_of_not_submission hs, List.append_nil]
    cases r with
    | nativeSql sql =>
      rw [step, step, Session.nativeSql, Session.nativeSql, ← turn_watched c seen]
      cases hc : c.session.isClosed <;> simp [watched, Session.watched, hc]
    | createStatement =>
      rw [step, step, create, create, Session.createStatement, Session.createStatement]
      cases hc : c.session.isClosed <;> simp [watched, Session.watched, hc]
    | escapeProcessing i =>
      rw [step, step]
      cases hi : c.statements[i]? <;> simp [watched, hi]
    | setEscapeProcessing i enabled =>
      rw [step, step]
      cases hi : c.statements[i]? <;> simp [watched, hi]
    | close => rfl
    | prepare i sql =>
      rw [step, step]
      cases hi : c.statements[i]? with
      | some h => simp [submission?, Request.submission?, flag?, hi] at hs
      | none => simp [watched, hi]
    | _ => cases hs

theorem run_watched (c : Client σ γ) (rs : List Request) :
    (c.watched []).run rs = (c.run rs).watched (c.received rs) := by
  induction rs using List.reverseRecOn with
  | nil => rfl
  | append_singleton rs r ih =>
    rw [received, run_append, run_append, ih]
    simp only [run_cons, run_nil, step_watched]
    rfl

theorem received_concat (c : Client σ γ) (rs : List Request) (r : Request) :
    c.received (rs ++ [r]) = c.received rs ++ (c.run rs).given r := by
  rw [received, run_append, run_watched]
  simp only [run_cons, run_nil, step_watched]
  rfl

theorem turns_watched (c : Client σ γ) (seen : List String) (rs : List Request) :
    ((c.watched seen).turns rs).map (fun t => (t.reply, t.events)) =
      (c.turns rs).map fun t => (t.reply, t.events) := by
  induction rs generalizing c seen with
  | nil => rfl
  | cons r rs ih => simp only [turns, List.map_cons, step_watched, ih]

theorem given_of_submission {c : Client σ γ} {r : Request} {sql : String} {b : Bool}
    (hc : c.session.isClosed = false) (hr : c.submission? r = some (sql, b)) :
    c.given r = nativeTexts sql b := by
  rw [given, Request.given_of_submission hr, hc]
  rfl

theorem given_of_not_submission {c : Client σ γ} {r : Request} (hr : c.submission? r = none) :
    c.given r = [] :=
  Request.given_of_not_submission hr _

theorem given_of_isClosed {c : Client σ γ} (hc : c.session.isClosed = true) (r : Request) :
    c.given r = [] :=
  if_pos hc

/-- The engine moves on by what it is given, and by nothing else. -/
theorem state_step (c : Client σ γ) (r : Request) :
    (c.step r).client.session.state = c.session.engine.after c.session.state (c.given r) := by
  have hs := c.serves_step r
  generalize c.step r = t at hs
  cases hr : c.submission? r with
  | none =>
    rw [given_of_not_submission hr]
    cases hs with
    | rejected _ hr' _ _ => cases hr.symm.trans hr'
    | prepared _ hr' _ _ => cases hr.symm.trans hr'
    | _ => rfl
  | some p =>
    cases hs with
    | refused hc _ => rw [given_of_isClosed hc]; rfl
    | unprocessed hc hr' he =>
      obtain ⟨⟩ := (processed?_of_submission hr).symm.trans hr'
      rw [given_of_submission hc hr, nativeTexts, he]
      rfl
    | rejected hc hr' ht hp =>
      rw [given_of_submission hc hr', nativeTexts, ht]
      exact (congrArg Prod.snd hp).symm
    | prepared hc hr' ht hp =>
      rw [given_of_submission hc hr', nativeTexts, ht]
      exact (congrArg Prod.snd hp).symm
    | missing hm => cases hm.submission?_eq_none.symm.trans hr
    | _ => cases hr

theorem state_run (c : Client σ γ) (rs : List Request) :
    (c.run rs).session.state = c.session.engine.after c.session.state (c.received rs) := by
  induction rs using List.reverseRecOn with
  | nil => rfl
  | append_singleton rs r ih =>
    have hengine : (c.run rs).session.engine = c.session.engine := by rw [session_run]
    rw [run_append, received_concat, Engine.after_append, ← ih, ← hengine]
    exact state_step (c.run rs) r

/-- `Answers e s sql b reply`: the reply to a statement that is submitted under the flag `b`
while the engine `e` is in the state `s`. -/
inductive Answers (e : Engine σ γ) (s : σ) (sql : String) (b : Bool) : Reply γ → Prop where
  | unprocessed {error : StatementError} (ht : nativeText sql b = .error error) :
      Answers e s sql b (.failed (.statement sql error))
  | rejected {t : NativeText} {reason : String} (ht : nativeText sql b = .ok t)
      (hp : (e.prepare s t.text).1 = .error reason) :
      Answers e s sql b (.failed (.rejected reason))
  | prepared {t : NativeText} {command : γ} {returnsValue : Bool} (ht : nativeText sql b = .ok t)
      (hp : (e.prepare s t.text).1 = .ok command) :
      Answers e s sql b (.prepared ⟨t.text, command, returnsValue⟩)

theorem answers_step {c : Client σ γ} {r : Request} {sql : String} {b : Bool}
    (hc : c.session.isClosed = false) (hr : c.submission? r = some (sql, b)) :
    Answers c.session.engine c.session.state sql b (c.step r).reply := by
  have hs := c.serves_step r
  generalize c.step r = t at hs
  cases hs with
  | refused hc' _ => cases hc.symm.trans hc'
  | unprocessed _ hr' he =>
    obtain ⟨⟩ := (processed?_of_submission hr).symm.trans hr'
    exact .unprocessed he
  | rejected _ hr' ht hp =>
    obtain ⟨⟩ := hr.symm.trans hr'
    exact .rejected ht (congrArg Prod.fst hp)
  | prepared _ hr' ht hp =>
    obtain ⟨⟩ := hr.symm.trans hr'
    exact .prepared ht (congrArg Prod.fst hp)
  | missing hm => cases hm.submission?_eq_none.symm.trans hr
  | _ => cases hr

/-- The native text that a client is told is what its engine would be given for the
statement, and an error that it is told is the one the statement would meet. -/
theorem step_nativeSql (c : Client σ γ) (sql : String) :
    (∃ text, (c.step (.nativeSql sql)).reply = .native text ∧
        c.given (.prepareStatement sql) = [text]) ∨
      ∃ e, (c.step (.nativeSql sql)).reply = .failed e ∧
        (c.step (.prepareStatement sql)).reply = .failed e ∧
        c.given (.prepareStatement sql) = [] := by
  cases hc : c.session.isClosed with
  | true =>
    refine .inr ⟨.closed, ?_, ?_, given_of_isClosed hc _⟩
    · rw [step_of_isClosed hc (.inr rfl)]
    · rw [step_of_isClosed hc (.inr rfl)]
  | false =>
    have hs := c.serves_nativeSql sql
    have ha := answers_step (r := .prepareStatement sql) hc rfl
    rw [given_of_submission (r := .prepareStatement sql) hc rfl, nativeTexts]
    generalize c.step (.nativeSql sql) = t at hs
    generalize (c.step (.prepareStatement sql)).reply = reply at ha
    cases hs with
    | refused hc' _ => cases hc.symm.trans hc'
    | native _ ht => exact .inl ⟨_, rfl, by rw [ht]⟩
    | unprocessed _ hr he =>
      obtain ⟨⟩ := hr
      refine .inr ⟨_, rfl, ?_, by rw [he]⟩
      cases ha with
      | unprocessed ht =>
        obtain ⟨⟩ := he.symm.trans ht
        rfl
      | rejected ht _ => cases he.symm.trans ht
      | prepared ht _ => cases he.symm.trans ht
    | rejected _ hr _ _ => cases hr
    | prepared _ hr _ _ => cases hr
    | missing hm => cases hm

section Start

variable (engine : Engine σ γ) (state : σ) (config : Config) (past : List Request)

theorem given_start_run (r : Request) :
    ((start engine state config).run past).given r = History.given config past r := by
  rw [given, flag?_start_run, History.given]
  congr 1
  rw [Bool.eq_iff_iff, isClosed_start_run_iff, decide_eq_true_iff]

theorem received_start :
    (start engine state config).received past = History.traffic config past := by
  induction past using List.reverseRecOn with
  | nil => rfl
  | append_singleton past r ih =>
    rw [received_concat, ih, given_start_run, History.traffic_concat]

end Start

/-- The engine is given the traffic of the history. Each reply to a submitted statement is
the answer of the engine in the state behind that traffic, or the error of the statement.
To ask for a native text gives the engine nothing and tells what it would be given. -/
theorem engine_receives_native_texts (engine : Engine σ γ) (state : σ) (config : Config)
    (past : List Request) :
    let c := start engine state config
    c.received past = History.traffic config past ∧
      ((c.watched []).turns past).map (fun t => (t.reply, t.events)) =
        (c.turns past).map (fun t => (t.reply, t.events)) ∧
      (∀ r sql b, .close ∉ past →
        r.submission? (History.flag? config past) = some (sql, b) →
          Answers engine (engine.after state (History.traffic config past)) sql b
            ((c.run past).step r).reply) ∧
      ∀ sql, c.received (past ++ [.nativeSql sql]) = c.received past ∧
        ((∃ text, ((c.run past).step (.nativeSql sql)).reply = .native text ∧
            c.received (past ++ [.prepareStatement sql]) = c.received past ++ [text]) ∨
          ∃ e, ((c.run past).step (.nativeSql sql)).reply = .failed e ∧
            ((c.run past).step (.prepareStatement sql)).reply = .failed e ∧
            c.received (past ++ [.prepareStatement sql]) = c.received past) := by
  intro c
  refine ⟨received_start engine state config past, c.turns_watched [] past, ?_,
    fun sql => ⟨?_, ?_⟩⟩
  · intro r sql b hc hr
    have hopen : (c.run past).session.isClosed = false :=
      Bool.eq_false_iff.2 (mt (isClosed_start_run_iff engine state config past).1 hc)
    rw [← flag?_start_run engine state config past] at hr
    have ha := answers_step hopen hr
    rwa [state_run, received_start, session_run] at ha
  · rw [received_concat, given_of_not_submission rfl, List.append_nil]
  · rcases (c.run past).step_nativeSql sql with ⟨text, hn, hg⟩ | ⟨e, hn, hp, hg⟩
    · exact .inl ⟨text, hn, by rw [received_concat, hg]⟩
    · exact .inr ⟨e, hn, hp, by rw [received_concat, hg, List.append_nil]⟩

/-- Two statements, of which the first has its flag taken away. The call is given with its
clause blanked, the second text has none that could be given. -/
theorem engine_receives_native_texts_flagged :
    let past : List Request := [.createStatement, .createStatement,
      .setEscapeProcessing 0 false, .prepareCall "\x7b? = call p\x7d", .prepareStatement "\x7b"]
    let c := start Engine.recording [] {}
    .close ∉ past ∧
      Request.submission? (History.flag? {} past) (.prepare 0 "\x7bcall p\x7d") =
        some ("\x7bcall p\x7d", false) ∧
      c.received past = ["     call p "] ∧
      Answers Engine.recording ["     call p "] "\x7bcall p\x7d" false
        ((c.run past).step (.prepare 0 "\x7bcall p\x7d")).reply := by
  intro past c
  obtain ⟨hreceived, -, hanswers, -⟩ := engine_receives_native_texts Engine.recording [] {} past
  have hpast : .close ∉ past := by decide
  have hflag : Request.submission? (History.flag? {} past) (.prepare 0 "\x7bcall p\x7d") =
      some ("\x7bcall p\x7d", false) := by decide
  have htraffic : History.traffic {} past = ["     call p "] := by decide +kernel
  rw [htraffic] at hreceived hanswers
  exact ⟨hpast, hflag, hreceived, hanswers _ _ _ hpast hflag⟩

end Client

end EscapeClause
