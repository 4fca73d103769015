import EscapeClause.Proofs.Session.Turn

/-! What a client has of its history. A request changes the state of the engine, closes
the session, creates a statement or sets a flag, and leaves everything else as it is.
Main statement: behind any history the flag of a statement is the value that was last set
on it, or the one of the configuration. -/

namespace EscapeClause

namespace Request

/-- The value that a request sets on the statement `i`. -/
def value? (i : Nat) : Request → Option Bool
  | setEscapeProcessing j enabled => if j = i then some enabled else none
  | _ => none

/-- The request neither closes nor creates nor sets anything. -/
structure Keeps (r : Request) : Prop where
  ne_close : r ≠ .close
  ne_createStatement : r ≠ .createStatement
  value?_eq_none (i : Nat) : r.value? i = none

end Request

namespace History

/-- The requests since the statement `i` was created. None is created behind a close. -/
def since? : Nat → List Request → Option (List Request)
  | _, [] => none
  | _, .close :: _ => none
  | 0, .createStatement :: rs => some rs
  | i + 1, .createStatement :: rs => since? i rs
  | i, _ :: rs => since? i rs

/-- The value that was last set on the statement `i`. -/
def lastValue? (i : Nat) : List Request → Option Bool
  | [] => none
  | r :: rs => (lastValue? i rs).or (r.value? i)

/-- The flag of the statement `i`, if there is such a statement. -/
def flag? (config : Config) (past : List Request) (i : Nat) : Option Bool :=
  (since? i past).map fun later => (lastValue? i later).getD config.escapeProcessing

theorem since?_cons {r : Request} (hc : r ≠ .close) (hs : r ≠ .createStatement) (i : Nat)
    (rs : List Request) : since? i (r :: rs) = since? i rs := by
  cases r with
  | close => exact absurd rfl hc
  | createStatement => exact absurd rfl hs
  | _ => cases i <;> rfl

theorem getD_lastValue?_cons (i : Nat) (r : Request) (rs : List Request) (b : Bool) :
    (lastValue? i (r :: rs)).getD b = (lastValue? i rs).getD ((r.value? i).getD b) := by
  rw [lastValue?]
  cases lastValue? i rs <;> rfl

end History

namespace Client

variable {σ γ : Type} {c : Client σ γ} {r : Request} {t : Turn σ γ}

theorem keeps_of_processed {p : String × Bool} (h : c.processed? r = some p) : r.Keeps := by
  cases r with
  | nativeSql sql | prepareStatement sql | prepareCall sql | prepare j sql =>
    exact ⟨by simp, by simp, fun _ => rfl⟩
  | _ => cases h

theorem keeps_of_submission {p : String × Bool} (h : c.submission? r = some p) : r.Keeps :=
  keeps_of_processed (processed?_of_submission h)

theorem Asks.ne_close (h : c.Asks r) : r ≠ .close := by
  rcases h with rfl | h
  · decide
  · obtain ⟨p, hp⟩ := Option.isSome_iff_exists.1 h
    exact (keeps_of_processed hp).ne_close

theorem Asks.value?_eq_none (h : c.Asks r) (i : Nat) : r.value? i = none := by
  rcases h with rfl | h
  · rfl
  · obtain ⟨p, hp⟩ := Option.isSome_iff_exists.1 h
    exact (keeps_of_processed hp).value?_eq_none i

theorem Misses.ne_close (h : c.Misses r) : r ≠ .close := by
  rintro rfl
  exact h

theorem Misses.ne_createStatement (h : c.Misses r) : r ≠ .createStatement := by
  rintro rfl
  exact h

theorem Misses.value?_eq_none {i : Nat} {h : Statement} (hr : c.Misses r)
    (hi : c.statements[i]? = some h) : r.value? i = none := by
  cases r with
  | setEscapeProcessing j enabled =>
    have hj : j ≠ i := by
      rintro rfl
      cases hi.symm.trans hr
    exact if_neg hj
  | _ => rfl

section Turn

/-- A turn leaves the session with its engine and configuration, and open unless the
request closes it. -/
theorem Serves.session_eq (h : c.Serves r t) :
    t.client.session =
      { c.session with
        state := t.client.session.state
        isClosed := c.session.isClosed || decide (r = .close) } := by
  cases h with
  | refused hc hr => simp [hr.ne_close]
  | unprocessed hc hr he => simp [(keeps_of_processed hr).ne_close]
  | native hc ht => simp
  | rejected hc hr ht hp => simp [withState, (keeps_of_submission hr).ne_close]
  | prepared hc hr ht hp => simp [withState, (keeps_of_submission hr).ne_close]
  | created hc => simp
  | flag hi => simp
  | flagged hi => simp
  | missing hr => simp [hr.ne_close]
  | closed hc => simp
  | closedAgain hc => simp [← hc]

/-- A turn keeps the statements, and the flag of each unless the request sets it. -/
theorem Serves.statement_eq {i : Nat} {handle : Statement} (h : c.Serves r t)
    (hi : c.statements[i]? = some handle) :
    t.client.statements[i]? = some ⟨(r.value? i).getD handle.escapeProcessing⟩ := by
  have hlt := (List.getElem?_eq_some_iff.1 hi).1
  cases h with
  | refused hc hr => rw [hr.value?_eq_none]; exact hi
  | unprocessed hc hr he => rw [(keeps_of_processed hr).value?_eq_none]; exact hi
  | native hc ht => exact hi
  | rejected hc hr ht hp => rw [(keeps_of_submission hr).value?_eq_none]; exact hi
  | prepared hc hr ht hp => rw [(keeps_of_submission hr).value?_eq_none]; exact hi
  | created hc => exact (List.getElem?_append_left hlt).trans hi
  | flag _ => exact hi
  | @flagged j _ b _ =>
    by_cases hj : j = i
    · simp [Request.value?, hj, hlt]
    · simp [Request.value?, hj, hi]
  | missing hr => rw [hr.value?_eq_none hi]; exact hi
  | closed hc => exact hi
  | closedAgain hc => exact hi

/-- A turn creates one statement or none. -/
theorem Serves.length_statements (h : c.Serves r t) :
    t.client.statements.length =
      c.statements.length +
        if r = .createStatement ∧ c.session.isClosed = false then 1 else 0 := by
  cases h with
  | refused hc hr => simp [hc]
  | unprocessed hc hr he => simp [(keeps_of_processed hr).ne_createStatement]
  | native hc ht => simp
  | rejected hc hr ht hp => simp [withState, (keeps_of_submission hr).ne_createStatement]
  | prepared hc hr ht hp => simp [withState, (keeps_of_submission hr).ne_createStatement]
  | created hc => simp [hc]
  | flag hi => simp
  | flagged hi => simp
  | missing hr => simp [hr.ne_createStatement]
  | closed hc => simp
  | closedAgain hc => simp

theorem statement_createStatement (hc : c.session.isClosed = false) :
    (c.step .createStatement).client.statements[c.statements.length]? =
      some ⟨c.session.config.escapeProcessing⟩ := by
  have hs := c.serves_step .createStatement
  generalize c.step .createStatement = t at hs
  cases hs with
  | refused hc' _ => cases hc.symm.trans hc'
  | created _ => simp
  | unprocessed _ hr _ => cases hr
  | rejected _ hr _ _ => cases hr
  | prepared _ hr _ _ => cases hr
  | missing hr => cases hr

end Turn

section Run

theorem session_run (c : Client σ γ) (rs : List Request) :
    (c.run rs).session =
      { c.session with
        state := (c.run rs).session.state
        isClosed := c.session.isClosed || decide (.close ∈ rs) } := by
  induction rs generalizing c with
  | nil => simp
  | cons r rs ih =>
    rw [run_cons, ih, (c.serves_step r).session_eq]
    simp [Bool.or_assoc, eq_comm]

theorem isClosed_run_iff {rs : List Request} :
    (c.run rs).session.isClosed = true ↔ c.session.isClosed = true ∨ .close ∈ rs := by
  rw [session_run]
  simp

/-- The flag of a statement that is there is the last value set on it, if any is set. -/
theorem statement_run {i : Nat} {handle : Statement} (hi : c.statements[i]? = some handle)
    (rs : List Request) :
    (c.run rs).statements[i]? =
      some ⟨(History.lastValue? i rs).getD handle.escapeProcessing⟩ := by
  induction rs generalizing c handle with
  | nil => exact hi
  | cons r rs ih =>
    rw [run_cons, ih ((c.serves_step r).statement_eq hi), History.getD_lastValue?_cons]

theorem length_statements_run (hc : c.session.isClosed = true) (rs : List Request) :
    (c.run rs).statements.length = c.statements.length := by
  induction rs generalizing c with
  | nil => rfl
  | cons r rs ih =>
    have hclosed : (c.step r).client.session.isClosed = true := by
      rw [(c.serves_step r).session_eq]
      simp [hc]
    rw [run_cons, ih hclosed, (c.serves_step r).length_statements]
    simp [hc]

/-- The statements that are created in a run, by the order of their creation. -/
theorem created_run (hc : c.session.isClosed = false) (k : Nat) (rs : List Request) :
    (c.run rs).statements[c.statements.length + k]? =
      (History.since? k rs).map fun later =>
        ⟨(History.lastValue? (c.statements.length + k) later).getD
          c.session.config.escapeProcessing⟩ := by
  induction rs generalizing c k with
  | nil => simp [History.since?]
  | cons r rs ih =>
    have hs := c.serves_step r
    have hlength := hs.length_statements
    rw [run_cons]
    by_cases hclose : r = .close
    · subst hclose
      have hclosed : (c.step .close).client.session.isClosed = true := by
        rw [hs.session_eq]
        simp
      rw [List.getElem?_eq_none]
      · simp [History.since?]
      · rw [length_statements_run hclosed, hlength]
        simp
    have hopen : (c.step r).client.session.isClosed = false := by
      rw [hs.session_eq]
      simp [hc, hclose]
    have hconfig : (c.step r).client.session.config = c.session.config := by
      rw [hs.session_eq]
    by_cases hcreate : r = .createStatement
    · subst hcreate
      cases k with
      | zero => exact statement_run (statement_createStatement hc) rs
      | succ k =>
        have hih := ih hopen k
        rw [if_pos ⟨rfl, hc⟩] at hlength
        rw [hlength, hconfig, Nat.add_assoc, Nat.add_comm 1 k] at hih
        rw [hih, History.since?]
    · have hih := ih hopen k
      rw [if_neg fun h => hcreate h.1] at hlength
      rw [hlength, hconfig, Nat.add_zero] at hih
      rw [hih, History.since?_cons hclose hcreate]

end Run

section Start

/-- The client of a session that has just been opened. -/
def start (engine : Engine σ γ) (state : σ) (config : Config) : Client σ γ :=
  ⟨⟨engine, state, config, false⟩, []⟩

variable (engine : Engine σ γ) (state : σ) (config : Config) (past : List Request)

theorem isClosed_start_run_iff :
    ((start engine state config).run past).session.isClosed = true ↔ .close ∈ past := by
  rw [isClosed_run_iff]
  simp [start]

theorem flag?_start_run :
    ((start engine state config).run past).flag? = History.flag? config past := by
  funext i
  have hi := created_run (c := start engine state config) rfl i past
  rw [show (start engine state config).statements.length = 0 from rfl, Nat.zero_add] at hi
  rw [flag?, hi, Option.map_map]
  rfl

end Start

end Client

end EscapeClause
