import EscapeClause.Proofs.Cursor.Steps

/-! Where a cursor leaves the boundaries of characters. Of the steps that count no bytes only
one can do so: passing a literal where none starts, at a character of more than one byte, of
which it takes the first byte alone. Main statement: a run without byte counts is on a boundary
behind each of its steps exactly if it never takes that step. -/

namespace EscapeClause

namespace Literal

open Text

/-- A character of more than one byte opens nothing. -/
theorem opening?_eq_none_of_utf8Size {prev : Option Char} {x : Char} {cs : List Char}
    (hx : x.utf8Size ≠ 1) : opening? prev (x :: cs) = none := by
  rw [Option.eq_none_iff_forall_ne_some]
  rintro ⟨o, body⟩ ho
  obtain ⟨hcs, hs⟩ := opening?_eq_some_iff.1 ho
  obtain ⟨m, mark, hm⟩ := List.exists_cons_of_ne_nil hs.mark_ne_nil
  rw [hm] at hcs
  obtain ⟨rfl, -⟩ := List.cons.inj hcs
  exact hx (hs.utf8Size_mark x (by simp [hm]))

theorem endPosition_of_utf8Size {sql : String} {before after : List Char} {x : Char}
    (hs : sql.toList = before ++ x :: after) (hx : x.utf8Size ≠ 1) :
    endPosition sql (byteLength before) = .ok (byteLength before + 1) := by
  simp only [endPosition, hs, locate_byteLength, opening?_eq_none_of_utf8Size hx]

end Literal

namespace Cursor

open Text

/-- A literal is passed at a character of more than one byte. -/
def Strays (c : Cursor) : Step → Prop
  | .passLiteral => ∃ before x after, c.sides = .ok (before, x :: after) ∧ x.utf8Size ≠ 1
  | _ => False

section Step

variable {c : Cursor} {before after : List Char}

theorem onBoundary_between (before after : List Char) : (between before after).OnBoundary :=
  ⟨before, after, sides_eq_ok_iff.1 (sides_between before after)⟩

theorem eq_between_of_sides (h : c.sides = .ok (before, after)) : c = between before after := by
  obtain ⟨htext, hpos⟩ := sides_eq_ok_iff.1 h
  obtain ⟨text, pos⟩ := c
  rw [between, ← htext, String.ofList_toList, ← hpos]

/-- Passing a literal at a character of one byte goes on to a boundary, or fails. -/
theorem onBoundary_passLiteral {x : Char} (hx : x.utf8Size = 1) :
    ((between before (x :: after)).step .passLiteral).2.OnBoundary := by
  cases h : Literal.skip before.getLast? (x :: after) with
  | ok r =>
    simp only [step, passLiteral_between before after hx h]
    exact onBoundary_between _ _
  | error kind =>
    simp only [step, passLiteral_between_of_error before after hx h]
    exact onBoundary_between _ _

/-- Passing a literal at a longer character ends within it. -/
theorem step_of_strays {s : Step} (h : c.Strays s) :
    c.step s = (.moved, { c with pos := c.pos + 1 }) ∧
      ¬ ({ c with pos := c.pos + 1 } : Cursor).OnBoundary := by
  cases s with
  | passLiteral =>
    obtain ⟨before, x, after, hs, hx⟩ := h
    obtain ⟨htext, hpos⟩ := sides_eq_ok_iff.1 hs
    have hlt := x.utf8Size_pos
    constructor
    · simp only [step, passLiteral, hpos, Literal.endPosition_of_utf8Size htext hx]
      rfl
    · simp only [OnBoundary, htext, hpos]
      exact not_isBoundary_of_inside (by omega) (by omega)
  | _ => exact h.elim

theorem onBoundary_step_iff {s : Step} (hc : c.OnBoundary) (hs : ∀ n, s ≠ .advanceBytes n) :
    (c.step s).2.OnBoundary ↔ ¬ c.Strays s := by
  constructor
  · intro h hstray
    obtain ⟨hstep, hoff⟩ := step_of_strays hstray
    rw [hstep] at h
    exact hoff h
  · intro hstray
    obtain ⟨before, after, hsides⟩ := hc
    have hc := sides_eq_ok_iff.2 hsides
    obtain rfl := eq_between_of_sides hc
    cases s with
    | peek => simpa [step, peek_between] using onBoundary_between before after
    | word => simpa [step, word_between] using onBoundary_between before after
    | advance =>
      cases after with
      | nil => simpa [step, Cursor.advance, hc, Except.map] using onBoundary_between before []
      | cons x after => simpa [step, advance_between] using onBoundary_between _ after
    | skipGap => simpa [step, skipGap_between] using onBoundary_between _ _
    | advanceBytes n => exact absurd rfl (hs n)
    | passLiteral =>
      cases after with
      | nil =>
        have hend : byteLength (between before []).text.toList ≤ (between before []).pos := by simp
        simp only [step, passLiteral, Literal.endPosition_of_le hend]
        exact onBoundary_between before []
      | cons x after =>
        refine onBoundary_passLiteral ?_
        by_contra hx
        exact hstray ⟨before, x, after, hc, hx⟩

/-- At a boundary no step is stuck, and elsewhere every step that reads. -/
theorem answer_eq_offBoundary_iff {s : Step} (hs : s.Reads) :
    (c.step s).1 = .offBoundary ↔ ¬ c.OnBoundary := by
  rw [(does_step c s).offBoundary_iff, and_iff_right hs]

end Step

section Run

theorem forall_prefix_cons_iff {α : Type} {P : List α → Prop} {x : α} {xs : List α} :
    (∀ taken, taken <+: x :: xs → P taken) ↔ P [] ∧ ∀ taken, taken <+: xs → P (x :: taken) := by
  constructor
  · intro h
    exact ⟨h [] List.nil_prefix, fun taken ht => h _ (List.cons_prefix_cons.2 ⟨rfl, ht⟩)⟩
  · rintro ⟨hnil, hcons⟩ taken ht
    rcases List.prefix_cons_iff.1 ht with rfl | ⟨tail, rfl, htail⟩
    · exact hnil
    · exact hcons tail htail

/-- A run that counts no bytes stays on the boundaries exactly if it does not stray. -/
theorem onBoundary_run_iff {c : Cursor} (hc : c.OnBoundary) {steps : List Step}
    (hs : ∀ n, Step.advanceBytes n ∉ steps) :
    (∀ taken, taken <+: steps → (c.run taken).OnBoundary) ↔
      ∀ taken s, taken ++ [s] <+: steps → ¬ (c.run taken).Strays s := by
  induction steps generalizing c with
  | nil => simp [hc]
  | cons s steps ih =>
    have hstep : (c.step s).2.OnBoundary ↔ ¬ c.Strays s :=
      onBoundary_step_iff hc fun n hn => hs n (by simp [hn])
    have htail (n : Nat) : Step.advanceBytes n ∉ steps := fun hn => hs n (by simp [hn])
    constructor
    · intro h taken s' ht
      have hnext : (c.step s).2.OnBoundary := h [s] (by simp)
      cases taken with
      | nil =>
        obtain ⟨rfl, -⟩ := List.cons_prefix_cons.1 ht
        exact hstep.1 hnext
      | cons t taken =>
        obtain ⟨rfl, htaken⟩ := List.cons_prefix_cons.1 ht
        refine (ih hnext htail).1 (fun more hmore => ?_) taken s' htaken
        exact h (t :: more) (List.cons_prefix_cons.2 ⟨rfl, hmore⟩)
    · intro h
      have hnext : (c.step s).2.OnBoundary := hstep.2 (h [] s (by simp))
      rw [forall_prefix_cons_iff]
      refine ⟨hc, (ih hnext htail).2 fun taken s' ht => ?_⟩
      exact h (s :: taken) s' (List.cons_prefix_cons.2 ⟨rfl, ht⟩)

end Run

/-- A run over a text that counts no bytes is on a boundary behind each of its steps exactly
if it never passes a literal at a character of more than one byte. There it ends one byte
behind the boundary, where no character can be read. -/
theorem run_onBoundary_iff_not_strays (text : String) {steps : List Step}
    (hs : ∀ n, Step.advanceBytes n ∉ steps) :
    ((∀ taken, taken <+: steps → ((atStart text).run taken).OnBoundary) ↔
      ∀ taken s, taken ++ [s] <+: steps → ¬ ((atStart text).run taken).Strays s) ∧
    ∀ taken s,
      (((atStart text).run taken).OnBoundary → s.Reads →
        (((atStart text).run taken).step s).1 ≠ .offBoundary) ∧
      (((atStart text).run taken).Strays s →
        ((atStart text).run (taken ++ [s])).pos = ((atStart text).run taken).pos + 1 ∧
        ∀ r : Step, r.Reads → (((atStart text).run (taken ++ [s])).step r).1 = .offBoundary) := by
  have hstart : (atStart text).OnBoundary := ⟨[], text.toList, rfl, rfl⟩
  refine ⟨onBoundary_run_iff hstart hs, fun taken s => ⟨fun hb hr => ?_, fun hstray => ?_⟩⟩
  · exact mt (answer_eq_offBoundary_iff hr).1 (not_not.2 hb)
  · obtain ⟨hstep, hoff⟩ := step_of_strays hstray
    rw [run_append, run_cons, run_nil, hstep]
    exact ⟨rfl, fun r hr => (answer_eq_offBoundary_iff hr).2 hoff⟩

/-- In `'é'é` the first literal is passed as a whole, and the letter behind it is not. -/
theorem run_onBoundary_iff_not_strays_letter :
    (∀ n, Step.advanceBytes n ∉ [Step.passLiteral, .passLiteral]) ∧
      ((atStart "'é'é").run [.passLiteral]).pos = 4 ∧
      ((atStart "'é'é").run [.passLiteral, .passLiteral]).pos = 5 ∧
      (((atStart "'é'é").run [.passLiteral, .passLiteral]).step .peek).1 = .offBoundary := by
  have hs : ∀ n, Step.advanceBytes n ∉ [Step.passLiteral, .passLiteral] := by simp
  have hfirst : (atStart "'é'é").run [.passLiteral] = ⟨"'é'é", 4⟩ := by decide +kernel
  have hstrays : ((atStart "'é'é").run [.passLiteral]).Strays .passLiteral := by
    rw [hfirst]
    exact ⟨['\'', 'é', '\''], 'é', [], by decide +kernel, by decide⟩
  obtain ⟨-, hstray⟩ := (run_onBoundary_iff_not_strays "'é'é" hs).2 [.passLiteral] .passLiteral
  obtain ⟨hpos, hstuck⟩ := hstray hstrays
  rw [hfirst] at hpos
  exact ⟨hs, by rw [hfirst], hpos, hstuck .peek trivial⟩

/-- Reading and passing literals do not suffice to stay on the boundaries. -/
theorem not_onBoundary_passLiteral :
    ¬ ∀ (text : String) (steps : List Step),
      (∀ s ∈ steps, s = .advance ∨ s = .skipGap ∨ s = .passLiteral) →
        ((atStart text).run steps).OnBoundary := by
  intro h
  have hb := h "é" [.passLiteral] (by simp)
  have hrun : (atStart "é").run [.passLiteral] = ⟨"é", 1⟩ := by decide +kernel
  rw [hrun] at hb
  exact @not_isBoundary_of_inside [] [] 'é' 1 (by decide) (by decide) hb

end Cursor

end EscapeClause
