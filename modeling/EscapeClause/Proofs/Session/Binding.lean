import EscapeClause.Proofs.Text
import EscapeClause.Session.Basic

/-! Bindings of return values. Main statement: a statement opens with a binding when it
begins with an opening brace and a question mark, up to blanks in front of them. -/

namespace EscapeClause

open Text

/-- An opening brace and a question mark at the front, behind blanks each. -/
def BindsReturnValue (cs : List Char) : Prop :=
  ∃ lead space rest, IsGap lead ∧ IsGap space ∧ cs = lead ++ '{' :: (space ++ '?' :: rest)

theorem opensWithBinding_iff {cs : List Char} :
    opensWithBinding cs = true ↔ BindsReturnValue cs := by
  rw [opensWithBinding]
  constructor
  · intro h
    split at h
    · next inner hcs =>
      obtain ⟨rest, hrest⟩ := List.head?_eq_some_iff.1 (eq_of_beq h)
      refine ⟨gap cs, gap inner, rest, isGap_gap cs, isGap_gap inner, ?_⟩
      rw [← hrest, gap_append_dropGap, ← hcs, gap_append_dropGap]
    · cases h
  · rintro ⟨lead, space, rest, hlead, hspace, rfl⟩
    rw [dropGap_append_of_head hlead fun c hc => by cases hc; decide]
    show ((dropGap (space ++ '?' :: rest)).head? == some '?') = true
    rw [dropGap_append_of_head hspace fun c hc => by cases hc; decide]
    rfl

end EscapeClause
