import EscapeClause.Session.Client

/-! What a turn of a client can be. Every request is served in one of eleven ways, which
say the reply, what becomes of the client, and the events. Main statement: the step of a
client serves its request. -/

namespace EscapeClause

/-- The statement that a request submits to be prepared, and the flag it is submitted with,
if the statements have the flags `flag?`. -/
def Request.submission? (flag? : Nat → Option Bool) : Request → Option (String × Bool)
  | prepareStatement sql => some (sql, true)
  | prepareCall sql => some (sql, true)
  | prepare i sql => (flag? i).map fun b => (sql, b)
  | _ => none

namespace Client

variable {σ γ : Type}

def flag? (c : Client σ γ) (i : Nat) : Option Bool :=
  c.statements[i]?.map Statement.escapeProcessing

def submission? (c : Client σ γ) (r : Request) : Option (String × Bool) := r.submission? c.flag?

/-- The statement that a request asks the native text of, and the flag it is asked with. -/
def processed? (c : Client σ γ) : Request → Option (String × Bool)
  | .nativeSql sql => some (sql, true)
  | r => c.submission? r

/-- The request needs an open session. -/
def Asks (c : Client σ γ) (r : Request) : Prop :=
  r = .createStatement ∨ (c.processed? r).isSome = true

/-- The request names a statement that is not there. -/
def Misses (c : Client σ γ) : Request → Prop
  | .escapeProcessing i | .setEscapeProcessing i _ | .prepare i _ => c.statements[i]? = none
  | _ => False

def withState (c : Client σ γ) (state : σ) : Client σ γ :=
  { c with session := { c.session with state } }

/-- `Serves c r t`: the turn `t` is what the client makes of the request `r`. -/
inductive Serves (c : Client σ γ) : Request → Turn σ γ → Prop where
  | refused {r : Request} (hc : c.session.isClosed = true) (hr : c.Asks r) :
      Serves c r ⟨.failed .closed, c, []⟩
  | unprocessed {r : Request} {sql : String} {b : Bool} {e : StatementError}
      (hc : c.session.isClosed = false) (hr : c.processed? r = some (sql, b))
      (he : nativeText sql b = .error e) :
      Serves c r ⟨.failed (.statement sql e), c, [.unprocessed sql e]⟩
  | native {sql : String} {t : NativeText} (hc : c.session.isClosed = false)
      (ht : nativeText sql true = .ok t) :
      Serves c (.nativeSql sql) ⟨.native t.text, c, [.processed sql t.text]⟩
  | rejected {r : Request} {sql reason : String} {b : Bool} {t : NativeText} {s : σ}
      (hc : c.session.isClosed = false) (hr : c.submission? r = some (sql, b))
      (ht : nativeText sql b = .ok t)
      (hp : c.session.engine.prepare c.session.state t.text = (.error reason, s)) :
      Serves c r ⟨.failed (.rejected reason), c.withState s,
        [.processed sql t.text, .rejected t.text reason]⟩
  | prepared {r : Request} {sql : String} {b : Bool} {t : NativeText} {command : γ} {s : σ}
      (hc : c.session.isClosed = false) (hr : c.submission? r = some (sql, b))
      (ht : nativeText sql b = .ok t)
      (hp : c.session.engine.prepare c.session.state t.text = (.ok command, s)) :
      Serves c r ⟨.prepared ⟨t.text, command, b && opensWithBinding sql.toList⟩, c.withState s,
        [.processed sql t.text]⟩
  | created (hc : c.session.isClosed = false) :
      Serves c .createStatement
        ⟨.created c.statements.length c.session.config.escapeProcessing,
          { c with statements := c.statements ++ [⟨c.session.config.escapeProcessing⟩] }, []⟩
  | flag {i : Nat} {h : Statement} (hi : c.statements[i]? = some h) :
      Serves c (.escapeProcessing i) ⟨.setting h.escapeProcessing, c, []⟩
  | flagged {i : Nat} {h : Statement} {b : Bool} (hi : c.statements[i]? = some h) :
      Serves c (.setEscapeProcessing i b)
        ⟨.setting b, { c with statements := c.statements.set i ⟨b⟩ }, []⟩
  | missing {r : Request} (hr : c.Misses r) : Serves c r ⟨.noStatement, c, []⟩
  | closed (hc : c.session.isClosed = false) :
      Serves c .close ⟨.done, { c with session := { c.session with isClosed := true } }, [.closed]⟩
  | closedAgain (hc : c.session.isClosed = true) : Serves c .close ⟨.done, c, []⟩

/-- All requests that submit a statement go the same way. -/
theorem step_of_submission {c : Client σ γ} {r : Request} {sql : String} {b : Bool}
    (h : c.submission? r = some (sql, b)) :
    c.step r = c.turn .prepared (c.session.submit sql b) := by
  cases r with
  | prepareStatement _ => cases h; rfl
  | prepareCall _ => cases h; rfl
  | prepare i _ =>
    obtain ⟨b, hb, ⟨⟩⟩ := Option.map_eq_some_iff.1 h
    obtain ⟨handle, hi, rfl⟩ := Option.map_eq_some_iff.1 hb
    simp only [step, hi]
    rfl
  | _ => cases h

theorem processed?_of_submission {c : Client σ γ} {r : Request} {p : String × Bool}
    (h : c.submission? r = some p) : c.processed? r = some p := by
  cases r with
  | nativeSql _ => cases h
  | _ => exact h

theorem serves_submission {c : Client σ γ} {r : Request} {sql : String} {b : Bool}
    (h : c.submission? r = some (sql, b)) :
    c.Serves r (c.turn .prepared (c.session.submit sql b)) := by
  have hr := processed?_of_submission h
  rw [Session.submit]
  split
  · next hc => exact .refused hc (.inr (by rw [hr]; rfl))
  next hc =>
  have hc := Bool.eq_false_iff.2 hc
  rw [Session.process]
  cases ht : nativeText sql b with
  | error e => exact .unprocessed hc hr ht
  | ok t =>
    rcases hp : c.session.engine.prepare c.session.state t.text with ⟨reason | command, s⟩
    · simp only [hp]
      exact .rejected hc h ht hp
    · simp only [hp]
      exact .prepared hc h ht hp

theorem serves_nativeSql (c : Client σ γ) (sql : String) :
    c.Serves (.nativeSql sql) (c.step (.nativeSql sql)) := by
  rw [step, Session.nativeSql]
  cases hc : c.session.isClosed with
  | true => exact .refused hc (.inr rfl)
  | false =>
    rw [Session.process]
    cases ht : nativeText sql true with
    | error e => exact .unprocessed hc rfl ht
    | ok t => exact .native hc ht

theorem serves_createStatement (c : Client σ γ) :
    c.Serves .createStatement (c.step .createStatement) := by
  rw [step, create, Session.createStatement]
  cases hc : c.session.isClosed with
  | true => exact .refused hc (.inl rfl)
  | false => exact .created hc

theorem serves_close (c : Client σ γ) : c.Serves .close (c.step .close) := by
  cases hc : c.session.isClosed with
  | true =>
    have hs : c.step .close = ⟨.done, c, []⟩ := by
      obtain ⟨⟨engine, state, config, isClosed⟩, statements⟩ := c
      cases hc
      rfl
    rw [hs]
    exact .closedAgain hc
  | false =>
    rw [step, Session.close, hc]
    exact .closed hc

theorem serves_step (c : Client σ γ) (r : Request) : c.Serves r (c.step r) := by
  cases r with
  | nativeSql sql => exact c.serves_nativeSql sql
  | prepareStatement sql => exact serves_submission rfl
  | prepareCall sql => exact serves_submission rfl
  | createStatement => exact c.serves_createStatement
  | escapeProcessing i =>
    rw [step]
    split
    · next h hi => exact .flag hi
    · next hi => exact .missing hi
  | setEscapeProcessing i enabled =>
    rw [step]
    split
    · next h hi => exact .flagged hi
    · next hi => exact .missing hi
  | prepare i sql =>
    cases hi : c.statements[i]? with
    | some h =>
      have hs : c.submission? (.prepare i sql) = some (sql, h.escapeProcessing) := by
        rw [submission?, Request.submission?, flag?, hi]
        rfl
      rw [step_of_submission hs]
      exact serves_submission hs
    | none =>
      rw [step, hi]
      exact .missing hi
  | close => exact c.serves_close

theorem Misses.submission?_eq_none {c : Client σ γ} {r : Request} (hr : c.Misses r) :
    c.submission? r = none := by
  cases r with
  | prepare i sql =>
    rw [submission?, Request.submission?, flag?, show c.statements[i]? = none from hr]
    rfl
  | escapeProcessing i => rfl
  | setEscapeProcessing i enabled => rfl
  | _ => cases hr

theorem Misses.not_asks {c : Client σ γ} {r : Request} (hr : c.Misses r) : ¬ c.Asks r := by
  rintro (rfl | h)
  · exact hr
  · cases r with
    | nativeSql sql => exact hr
    | _ =>
      rw [processed?, hr.submission?_eq_none] at h
      · cases h
      · simp

/-- A closed session answers nothing but that it is closed, and nothing changes. -/
theorem step_of_isClosed {c : Client σ γ} {r : Request} (hc : c.session.isClosed = true)
    (hr : c.Asks r) : c.step r = ⟨.failed .closed, c, []⟩ := by
  have hs := c.serves_step r
  generalize c.step r = t at hs
  cases hs with
  | refused _ _ => rfl
  | unprocessed hc' _ _ => cases hc.symm.trans hc'
  | native hc' _ => cases hc.symm.trans hc'
  | rejected hc' _ _ _ => cases hc.symm.trans hc'
  | prepared hc' _ _ _ => cases hc.symm.trans hc'
  | created hc' => cases hc.symm.trans hc'
  | closed hc' => cases hc.symm.trans hc'
  | missing hm => exact absurd hr hm.not_asks
  | _ => rcases hr with hr | hr <;> cases hr

end Client

end EscapeClause
