/-! Finding a mark in a text. Main statements: what `splitAfter` returns is a splitting
of the text, its first part ends with the mark, and a mark in the text is found. -/

namespace EscapeClause.Text

/-- Splits a text just behind the first `mark` in it. -/
def splitAfter (mark cs : List Char) : Option (List Char × List Char) :=
  if mark <+: cs then some (mark, cs.drop mark.length)
  else match cs with
    | [] => none
    | c :: cs => (splitAfter mark cs).map fun r => (c :: r.1, r.2)

theorem append_of_splitAfter {mark cs before after : List Char}
    (h : splitAfter mark cs = some (before, after)) : cs = before ++ after := by
  induction cs generalizing before with
  | nil =>
    rw [splitAfter] at h
    split at h <;> cases h
    next hm => rw [List.prefix_nil.1 hm]; rfl
  | cons c cs ih =>
    rw [splitAfter] at h
    split at h
    · next hm =>
      cases h
      exact (List.prefix_iff_eq_append.1 hm).symm
    · obtain ⟨r, hr, he⟩ := Option.map_eq_some_iff.1 h
      cases he
      rw [ih hr, List.cons_append]

theorem suffix_of_splitAfter {mark cs before after : List Char}
    (h : splitAfter mark cs = some (before, after)) : mark <:+ before := by
  induction cs generalizing before with
  | nil =>
    rw [splitAfter] at h
    split at h <;> cases h
    exact List.suffix_rfl
  | cons c cs ih =>
    rw [splitAfter] at h
    split at h
    · cases h
      exact List.suffix_rfl
    · obtain ⟨r, hr, he⟩ := Option.map_eq_some_iff.1 h
      cases he
      exact (ih hr).trans (List.suffix_cons c r.1)

theorem splitAfter_eq_none_iff {mark cs : List Char} :
    splitAfter mark cs = none ↔ ¬ mark <:+: cs := by
  induction cs with
  | nil =>
    rw [splitAfter]
    split
    · next hm => simp [hm.isInfix]
    · next hm => simpa using hm
  | cons c cs ih =>
    rw [splitAfter]
    split
    · next hm => simp [hm.isInfix]
    · next hm => rw [Option.map_eq_none_iff, ih, List.infix_cons_iff, not_or]; simp [hm]

end EscapeClause.Text
