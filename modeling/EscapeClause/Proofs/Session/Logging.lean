import EscapeClause.Proofs.Session.Traffic

/-! What a client writes to the log. The records of a turn are told from its request and reply,
from whether the session was closed before, and from what the engine was given. Main statement:
these and no others are logged, and the texts that are logged as translated for statements to be
prepared are, over a run, the texts that the engine was given. -/

namespace EscapeClause

namespace Request

/-- The statement that a request submits, to be prepared or to be told its native text. -/
def sql? : Request → Option String
  | nativeSql sql | prepareStatement sql | prepareCall sql | prepare _ sql => some sql
  | _ => none

def prepares : Request → Bool
  | prepareStatement _ | prepareCall _ | prepare _ _ => true
  | _ => false

theorem sql?_of_submission {flag? : Nat → Option Bool} {r : Request} {sql : String} {b : Bool}
    (h : r.submission? flag? = some (sql, b)) : r.sql? = some sql := by
  cases r with
  | prepareStatement _ => cases h; rfl
  | prepareCall _ => cases h; rfl
  | prepare i _ =>
    obtain ⟨b, -, ⟨⟩⟩ := Option.map_eq_some_iff.1 h
    rfl
  | _ => cases h

theorem submission?_of_not_prepares {flag? : Nat → Option Bool} {r : Request}
    (h : r.prepares = false) : r.submission? flag? = none := by
  cases r with
  | prepareStatement _ => cases h
  | prepareCall _ => cases h
  | prepare _ _ => cases h
  | _ => rfl

end Request

/-- Replies that nothing is logged for. -/
def Reply.isQuiet {γ : Type} : Reply γ → Bool
  | created _ _ | setting _ | noStatement | failed .closed => true
  | _ => false

/-- The text that a record logs as translated. -/
def Log.Record.translated? (record : Log.Record) : Option String :=
  if record.message = "Translated statement" then record.fields.lookup "translated" else none

/-- `Logs isClosed given r reply records`: what is logged for a request with its reply, where
`isClosed` says whether the session was closed before and `given` what the engine was given. -/
inductive Logs {γ : Type} (isClosed : Bool) (given : List String) :
    Request → Reply γ → List Log.Record → Prop where
  | quiet {r : Request} {reply : Reply γ} (hr : reply.isQuiet = true) (hg : given = []) :
      Logs isClosed given r reply []
  | closed (hc : isClosed = false) :
      Logs isClosed given .close .done [⟨.debug, "Session closed", []⟩]
  | closedAgain (hc : isClosed = true) : Logs isClosed given .close .done []
  | unprocessed {r : Request} {sql : String} {e : StatementError} (hr : r.sql? = some sql)
      (he : nativeText sql true = .error e) (hg : given = []) :
      Logs isClosed given r (.failed (.statement sql e))
        [⟨.warn, "Statement preparation failed", [("sql", sql), ("error", e.message)]⟩]
  | native {sql text : String} (ht : ∃ t, nativeText sql true = .ok t ∧ t.text = text) :
      Logs isClosed given (.nativeSql sql) (.native text)
        [⟨.debug, "Translated statement", [("sql", sql), ("translated", text)]⟩]
  | prepared {r : Request} {sql : String} {p : Prepared γ} (hr : r.sql? = some sql)
      (hg : given = [p.sql]) :
      Logs isClosed given r (.prepared p)
        [⟨.debug, "Translated statement", [("sql", sql), ("translated", p.sql)]⟩]
  | rejected {r : Request} {sql text reason : String} (hr : r.sql? = some sql)
      (hg : given = [text]) :
      Logs isClosed given r (.failed (.rejected reason))
        [⟨.debug, "Translated statement", [("sql", sql), ("translated", text)]⟩,
          ⟨.warn, "Engine rejected statement", [("sql", text), ("error", reason)]⟩]

section Logs

variable {γ : Type} {isClosed : Bool} {given : List String} {r : Request} {reply : Reply γ}
  {records records' : List Log.Record}

theorem Logs.unique (h : Logs isClosed given r reply records)
    (h' : Logs isClosed given r reply records') : records = records' := by
  cases h with
  | quiet hr _ =>
    cases h' with
    | quiet _ _ => rfl
    | _ => cases hr
  | closed hc =>
    cases h' with
    | quiet hr _ => cases hr
    | closed _ => rfl
    | closedAgain hc' => cases hc.symm.trans hc'
  | closedAgain hc =>
    cases h' with
    | quiet hr _ => cases hr
    | closed hc' => cases hc.symm.trans hc'
    | closedAgain _ => rfl
  | unprocessed =>
    cases h' with
    | quiet hr _ => cases hr
    | unprocessed => rfl
  | native =>
    cases h' with
    | quiet hr _ => cases hr
    | native => rfl
  | prepared hr _ =>
    cases h' with
    | quiet hr' _ => cases hr'
    | prepared hr' _ =>
      obtain ⟨⟩ := hr.symm.trans hr'
      rfl
  | rejected hr hg =>
    cases h' with
    | quiet hr' _ => cases hr'
    | rejected hr' hg' =>
      obtain ⟨⟩ := hr.symm.trans hr'
      obtain ⟨⟩ := hg.symm.trans hg'
      rfl

/-- The log of a statement to be prepared names the text that the engine was given. -/
theorem Logs.translated?_eq (h : Logs isClosed given r reply records) (hr : r.prepares = true) :
    records.filterMap Log.Record.translated? = given := by
  cases h with
  | quiet _ hg => rw [hg]; rfl
  | closed _ => cases hr
  | closedAgain _ => cases hr
  | unprocessed _ _ hg => rw [hg]; rfl
  | native _ => cases hr
  | prepared _ hg => rw [hg]; rfl
  | rejected _ hg => rw [hg]; rfl

end Logs

/-- The texts that a turn logs as translated, if its request has a statement prepared. -/
def Request.translations {σ γ : Type} (r : Request) (t : Turn σ γ) : List String :=
  if r.prepares then (t.events.map Event.record).filterMap Log.Record.translated? else []

namespace Client

variable {σ γ : Type} {c : Client σ γ} {r : Request}

theorem sql?_of_processed {sql : String} {b : Bool} (h : c.processed? r = some (sql, b)) :
    r.sql? = some sql := by
  cases r with
  | nativeSql _ => cases h; rfl
  | _ => exact @Request.sql?_of_submission c.flag? _ _ _ h

/-- A statement without a native text is not given to the engine. -/
theorem given_of_error {sql : String} {b : Bool} {e : StatementError}
    (hc : c.session.isClosed = false) (hr : c.processed? r = some (sql, b))
    (he : nativeText sql b = .error e) : c.given r = [] := by
  cases hs : c.submission? r with
  | none => exact given_of_not_submission hs
  | some p =>
    obtain ⟨⟩ := (processed?_of_submission hs).symm.trans hr
    rw [given_of_submission hc hs, nativeTexts, he]

/-- What is logged in a turn. -/
theorem logs_step (c : Client σ γ) (r : Request) :
    Logs c.session.isClosed (c.given r) r (c.step r).reply
      ((c.step r).events.map Event.record) := by
  have hs := c.serves_step r
  generalize c.step r = t at hs
  cases hs with
  | refused hc hr => exact .quiet rfl (given_of_isClosed hc r)
  | @unprocessed _ sql b e hc hr he =>
    have hg := given_of_error hc hr he
    cases b with
    | false => cases he
    | true => exact .unprocessed (sql?_of_processed hr) he hg
  | native hc ht => exact .native ⟨_, ht, rfl⟩
  | rejected hc hr ht hp =>
    refine .rejected (Request.sql?_of_submission hr) ?_
    rw [given_of_submission hc hr, nativeTexts, ht]
  | prepared hc hr ht hp =>
    refine .prepared (Request.sql?_of_submission hr) ?_
    rw [given_of_submission hc hr, nativeTexts, ht]
  | created hc => exact .quiet rfl (given_of_not_submission rfl)
  | flag hi => exact .quiet rfl (given_of_not_submission rfl)
  | flagged hi => exact .quiet rfl (given_of_not_submission rfl)
  | missing hr => exact .quiet rfl (given_of_not_submission hr.submission?_eq_none)
  | closed hc => exact .closed hc
  | closedAgain hc => exact .closedAgain hc

/-- The texts that are logged as translated, in order, for the statements to be prepared in the
course of some requests. -/
def translations (c : Client σ γ) (rs : List Request) : List String :=
  (rs.zip (c.turns rs)).flatMap fun p => p.1.translations p.2

theorem translations_step (c : Client σ γ) (r : Request) :
    r.translations (c.step r) = c.given r := by
  rw [Request.translations]
  split
  · next hr => exact (c.logs_step r).translated?_eq hr
  · next hr =>
    rw [given_of_not_submission (Request.submission?_of_not_prepares (Bool.eq_false_iff.2 hr))]

theorem turns_concat (c : Client σ γ) (rs : List Request) (r : Request) :
    c.turns (rs ++ [r]) = c.turns rs ++ [(c.run rs).step r] := by
  induction rs generalizing c with
  | nil => rfl
  | cons s rs ih => rw [List.cons_append, turns, ih, turns, run_cons, List.cons_append]

/-- The log of a run names the texts that the engine was given, each once and in order. -/
theorem translations_eq_received (c : Client σ γ) (rs : List Request) :
    c.translations rs = c.received rs := by
  induction rs using List.reverseRecOn with
  | nil => rfl
  | append_singleton rs r ih =>
    rw [translations] at ih ⊢
    rw [turns_concat, List.zip_append (c.length_turns rs).symm, List.flatMap_append, ih,
      received_concat, ← translations_step]
    exact congrArg _ (List.append_nil _)

/-- The text that the engine rejects counts, and one that is only asked for does not. -/
example : (start (Engine.rejecting "no") () {}).translations
    [.nativeSql "\x7bx\x7d", .prepareCall "\x7bcall p\x7d", .close, .prepareCall "q"] =
      [" call p "] := by decide +kernel

/-- The log is faithful. Behind any requests the next one logs what its reply tells, with the
text that the engine was given for it, and nothing else. Over a run the texts that are logged
as translated for statements to be prepared are the texts that the engine was given. -/
theorem log_is_faithful (engine : Engine σ γ) (state : σ) (config : Config) :
    let c := start engine state config
    (∀ past r records,
      Logs (decide (.close ∈ past)) (History.given config past r) r ((c.run past).step r).reply
          records ↔
        records = ((c.run past).step r).events.map Event.record) ∧
      ∀ rs, c.translations rs = c.received rs := by
  intro c
  refine ⟨fun past r records => ?_, c.translations_eq_received⟩
  have hlogs := (c.run past).logs_step r
  have hclosed : (c.run past).session.isClosed = decide (.close ∈ past) := by
    rw [Bool.eq_iff_iff, isClosed_start_run_iff, decide_eq_true_iff]
  rw [given_start_run, hclosed] at hlogs
  constructor
  · exact fun h => h.unique hlogs
  · rintro rfl
    exact hlogs

end Client

end EscapeClause
