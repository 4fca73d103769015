import EscapeClause.Proofs.Session.Effects
import EscapeClause.Proofs.Session.Traffic

/-! Closing a session is final. Main statement: behind a close a client refuses everything
that needs the session and has no effect any more, whatever is asked of it, and a run that
closes the session reports so once. -/

namespace EscapeClause

theorem Event.message_record_eq_iff {e : Event} :
    e.record.message = "Session closed" ↔ e = .closed := by
  cases e <;> simp [record]

namespace Client

variable {σ γ : Type} {c : Client σ γ}

/-- What a client reports in the course of some requests. -/
def reported (c : Client σ γ) (rs : List Request) : List Event := (c.turns rs).flatMap Turn.events

@[simp] theorem reported_cons (c : Client σ γ) (r : Request) (rs : List Request) :
    c.reported (r :: rs) = (c.step r).events ++ (c.step r).client.reported rs := rfl

/-- What a close comes to. Whatever requests are made, the session stays closed, with the
same engine in the same state and the same configuration, and the statements stay, with
flags that can still be set. All that needs the session is refused, nothing is given to the
engine, nothing is reported, and in any monad nothing is done at all. -/
structure Sealed (c : Client σ γ) : Prop where
  isClosed_run (rs : List Request) : (c.run rs).session.isClosed = true
  session_run (rs : List Request) : (c.run rs).session = c.session
  flag?_run (rs : List Request) (i : Nat) :
    (c.run rs).flag? i = (c.flag? i).map fun b => (History.lastValue? i rs).getD b
  step_run (rs : List Request) (r : Request) (hr : (c.run rs).Asks r) :
    (c.run rs).step r = ⟨.failed .closed, c.run rs, []⟩
  received (rs : List Request) : c.received rs = []
  reported (rs : List Request) : c.reported rs = []
  effects_run {m : Type → Type} [Monad m] [LawfulMonad m] (fx : Effects m γ) (rs : List Request) :
    ∃ answer, fx.run c.front rs = pure answer

section Closed

variable (hc : c.session.isClosed = true)

include hc

theorem isClosed_run_of_isClosed (rs : List Request) : (c.run rs).session.isClosed = true :=
  isClosed_run_iff.2 (.inl hc)

theorem received_of_isClosed (rs : List Request) : c.received rs = [] := by
  induction rs using List.reverseRecOn with
  | nil => rfl
  | append_singleton rs r ih =>
    rw [received_concat, ih, given_of_isClosed (isClosed_run_of_isClosed hc rs), List.append_nil]

theorem session_run_of_isClosed (rs : List Request) : (c.run rs).session = c.session := by
  have hb : (c.session.isClosed || decide (.close ∈ rs)) = c.session.isClosed := by
    rw [hc]
    rfl
  rw [session_run, state_run, received_of_isClosed hc, hb]
  rfl

theorem flag?_run_of_isClosed (rs : List Request) (i : Nat) :
    (c.run rs).flag? i = (c.flag? i).map fun b => (History.lastValue? i rs).getD b := by
  rw [flag?, flag?]
  cases hi : c.statements[i]? with
  | some h => rw [statement_run hi]; rfl
  | none =>
    have hlength := length_statements_run hc rs
    rw [List.getElem?_eq_none_iff] at hi
    rw [List.getElem?_eq_none (by omega)]
    rfl

theorem events_step_of_isClosed (r : Request) : (c.step r).events = [] := by
  have hs := c.serves_step r
  generalize c.step r = t at hs
  cases hs with
  | unprocessed hc' _ _ => cases hc.symm.trans hc'
  | native hc' _ => cases hc.symm.trans hc'
  | rejected hc' _ _ _ => cases hc.symm.trans hc'
  | prepared hc' _ _ _ => cases hc.symm.trans hc'
  | closed hc' => cases hc.symm.trans hc'
  | _ => rfl

theorem reported_of_isClosed (rs : List Request) : c.reported rs = [] := by
  induction rs generalizing c with
  | nil => rfl
  | cons r rs ih =>
    have hclosed : (c.step r).client.session.isClosed = true := isClosed_run_of_isClosed hc [r]
    rw [reported_cons, events_step_of_isClosed hc, ih hclosed]
    rfl

theorem sealed_of_isClosed : c.Sealed where
  isClosed_run := isClosed_run_of_isClosed hc
  session_run := session_run_of_isClosed hc
  flag?_run := flag?_run_of_isClosed hc
  step_run rs _ hr := step_of_isClosed (isClosed_run_of_isClosed hc rs) hr
  received := received_of_isClosed hc
  reported := reported_of_isClosed hc
  effects_run fx rs := fx.exists_run_eq_pure hc rs

end Closed

/-- A turn reports the close that it makes, and no other. -/
theorem count_closed_step (hc : c.session.isClosed = false) (r : Request) :
    (c.step r).events.count .closed = if r = .close then 1 else 0 := by
  have hs := c.serves_step r
  generalize c.step r = t at hs
  cases hs with
  | refused hc' _ => cases hc.symm.trans hc'
  | unprocessed _ hr _ => simp [(keeps_of_processed hr).ne_close]
  | native _ _ => simp
  | rejected _ hr _ _ => simp [(keeps_of_submission hr).ne_close]
  | prepared _ hr _ _ => simp [(keeps_of_submission hr).ne_close]
  | created _ => simp
  | flag _ => simp
  | flagged _ => simp
  | missing hr => simp [hr.ne_close]
  | closed _ => simp
  | closedAgain hc' => cases hc.symm.trans hc'

theorem count_closed_reported (hc : c.session.isClosed = false) (rs : List Request) :
    (c.reported rs).count .closed = if .close ∈ rs then 1 else 0 := by
  induction rs generalizing c with
  | nil => rfl
  | cons r rs ih =>
    rw [reported_cons, List.count_append, count_closed_step hc]
    by_cases hr : r = .close
    · subst hr
      have hclosed : (c.step .close).client.session.isClosed = true :=
        isClosed_run_iff.2 (.inr (List.mem_singleton_self _))
      simp [reported_of_isClosed hclosed]
    · have hopen : (c.step r).client.session.isClosed = false := by
        rw [(c.serves_step r).session_eq]
        simp [hc, hr]
      simp [ih hopen, hr, Ne.symm hr]

/-- A session that is closed was closed before or is closed by the run, and is closed for
good. The run reports that once, if it is the one that closes the session. What the run
does is done by its effects, of which there are none behind the close. -/
theorem closing_is_final (c : Client σ γ) (rs : List Request) :
    ((c.run rs).session.isClosed = true ↔ c.session.isClosed = true ∨ .close ∈ rs) ∧
      ((c.run rs).session.isClosed = true → (c.run rs).Sealed) ∧
      (c.reported rs).countP (fun e => e.record.message = "Session closed") =
        (if c.session.isClosed = false ∧ (c.run rs).session.isClosed = true then 1 else 0) ∧
      (c.session.engine.effects.run c.front rs).run (c.session.state, []) =
        pure (((c.turns rs).map Turn.reply, (c.run rs).front),
          (c.run rs).session.state, c.reported rs) := by
  refine ⟨isClosed_run_iff, fun hc => sealed_of_isClosed hc, ?_, c.effects_run rs []⟩
  have hcount : (c.reported rs).countP (fun e => e.record.message = "Session closed") =
      (c.reported rs).count .closed :=
    List.countP_congr fun e _ => by simp [Event.message_record_eq_iff]
  rw [hcount]
  cases hc : c.session.isClosed with
  | true =>
    rw [reported_of_isClosed hc]
    rfl
  | false =>
    rw [count_closed_reported hc]
    simp only [isClosed_run_iff, hc]
    simp

/-- A statement that outlives the close of its session, and a text without native text. -/
theorem closing_is_final_outlived :
    let c := (start Engine.recording [] {}).run [.createStatement, .close]
    c.Asks (.prepare 0 "\x7b") ∧ c.step (.prepare 0 "\x7b") = ⟨.failed .closed, c, []⟩ := by
  intro c
  have hasks : c.Asks (.prepare 0 "\x7b") := .inr (by decide)
  obtain ⟨hiff, hsealed, -⟩ :=
    closing_is_final (start Engine.recording [] {}) [.createStatement, .close]
  have hc : c.session.isClosed = true := hiff.2 (.inr (by decide))
  exact ⟨hasks, (hsealed hc).step_run [] _ hasks⟩

end Client

end EscapeClause
