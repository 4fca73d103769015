import EscapeClause.Proofs.Nesting

/-! Items in front of a rest. A part of a text is read as the same items whatever follows
it, as long as the rest begins alike, ends a line where it did, and lengthens no word at
the boundary into a marker. A new line behind a text is such a change. Main statements:
`Passes.replace`, and `readFrom_of_passes`, by which only the rest is still to be read. -/

namespace EscapeClause

open Text

namespace Item

/-- A replacement for the rest of a text that changes none of the items before it. -/
structure Replaces (rest rest' : List Char) : Prop extends Literal.Replaces rest rest' where
  head?_eq_some : ∀ c, rest.head? = some c → rest'.head? = some c
  marker_eq : ∀ xs, marker (xs ++ rest') = marker (xs ++ rest)

section Replaces

variable {rest rest' : List Char}

theorem Replaces.head?_append (h : Replaces rest rest') (xs : List Char) {c : Char}
    (hc : (xs ++ rest).head? = some c) : (xs ++ rest').head? = some c := by
  cases xs with
  | nil => exact h.head?_eq_some c hc
  | cons x xs => exact hc

theorem Replaces.append_left (h : Replaces rest rest') (xs : List Char) :
    Replaces (xs ++ rest) (xs ++ rest') := by
  refine ⟨?_, fun c => h.head?_append xs, fun ys => ?_⟩
  · cases xs with
    | nil => exact h.toReplaces
    | cons x xs => exact .of_head?_eq rfl
  · rw [← List.append_assoc, ← List.append_assoc]
    exact h.marker_eq (ys ++ xs)

/-- A new line may follow any rest. -/
theorem replaces_line (rest more : List Char) : Replaces rest (rest ++ '\n' :: more) := by
  have hblank : isBlank '\n' = true := by decide
  refine ⟨?_, fun c hc => ?_, fun xs => ?_⟩
  · cases rest with
    | nil =>
      refine ⟨fun _ => List.takeWhile_cons_of_neg (by decide), fun c hc hh => ?_⟩
      cases hh
      exact absurd hc (by decide)
    | cons c rest => exact .of_head?_eq rfl
  · obtain ⟨tail, rfl⟩ := List.head?_eq_some_iff.1 hc
    rfl
  · rw [← List.append_assoc, marker, marker, word_append_of_isBlank hblank]

theorem isBlank_of_not_inert {c : Char} (hc : ¬ Inert c) : isBlank c = false := by
  cases hb : isBlank c with
  | false => rfl
  | true => exact absurd (inert_of_isBlank hb) hc

/-- A character that is not inert ends the search for a marker: it belongs to none. -/
theorem marker_append_of_not_inert {c : Char} (hc : ¬ Inert c) (xs cs cs' : List Char) :
    marker (xs ++ c :: cs') = marker (xs ++ c :: cs) := by
  by_cases hx : ∃ x ∈ xs, isBlank x = true
  · obtain ⟨x, hmem, hblank⟩ := hx
    obtain ⟨ys, zs, rfl⟩ := List.append_of_mem hmem
    rw [List.append_assoc, List.append_assoc, List.cons_append, List.cons_append, marker, marker,
      word_append_of_isBlank hblank, word_append_of_isBlank hblank]
  · have hxs : ∀ x ∈ xs, (!isBlank x) = true := by
      intro x hmem
      simpa using fun h => hx ⟨x, hmem, h⟩
    have hnone (tail : List Char) : marker (xs ++ c :: tail) = [] := by
      have hmem : c ∈ word (xs ++ c :: tail) := by
        rw [word, List.takeWhile_append_of_pos hxs,
          List.takeWhile_cons_of_pos (by simp [isBlank_of_not_inert hc])]
        exact List.mem_append_right xs List.mem_cons_self
      exact if_neg fun hm => hc (inert_of_mem_marks hm hmem)
    rw [hnone, hnone]

/-- Behind a character that is not inert any text may follow. -/
theorem replaces_of_not_inert {c : Char} (hc : ¬ Inert c) (rest rest' : List Char) :
    Replaces (c :: rest) (c :: rest') :=
  ⟨.of_head?_eq rfl, fun _ h => h, fun xs => marker_append_of_not_inert hc xs rest rest'⟩

/-- Of the text behind the binding only the first character counts. -/
theorem Opened.of_head? {gap tail tail' : List Char} {binding : Option Binding}
    (h : Opened gap binding tail) (hne : tail ≠ [])
    (hh : ∀ x, tail.head? = some x → tail'.head? = some x) : Opened gap binding tail' := by
  obtain ⟨x, xs, rfl⟩ := List.exists_cons_of_ne_nil hne
  have hx := hh x rfl
  cases h with
  | clause hg hb hd hq =>
    obtain ⟨xs', rfl⟩ := List.head?_eq_some_iff.1 hx
    exact .clause hg hb hd hq
  | bound hg h₁ h₂ hb =>
    refine .bound hg h₁ h₂ fun y hy => ?_
    rw [hx] at hy
    cases hy
    exact hb x rfl

/-- An item that opens no clause is read again where literals before the rest stay. -/
theorem Read.replace_of_not_opensClause {prev prev' : Option Char} {c : Char} {cs : List Char}
    {i : Item} (h : Item.Read prev c cs i rest) (hclause : i.opensClause = false)
    (hp : Literal.Behind prev prev' (c :: cs)) (hr : Literal.Replaces rest rest') :
    ∃ cs', i.source ++ rest' = c :: cs' ∧ Item.Read prev' c cs' i rest' := by
  cases h with
  | piece ho hc hpiece =>
    obtain ⟨cs', hcs, hread⟩ := Piece.read_replace hpiece hp hr
    exact ⟨cs', hcs, .piece ho hc hread⟩
  | closing => exact ⟨rest', rfl, .closing rest'⟩
  | @native gap ds _ d body hg hd hb =>
    have hb' := readBody_replace hb (fun _ => rfl) rest'
    obtain ⟨xs, hxs⟩ := flatMap_text_of_isDigit hd hb
    rw [hxs, List.cons_append] at hb'
    refine ⟨gap ++ d :: (xs ++ '}' :: rest'), ?_, .native hg hd hb'⟩
    simp only [source, hxs, List.cons_append, List.append_assoc, List.nil_append]
  | opening => cases hclause

/-- An item is read again in front of another rest. The binding of a clause may have a
gap at the end of its text, which another rest would lengthen. -/
theorem Read.replace {prev prev' : Option Char} {c : Char} {cs : List Char} {i : Item}
    (h : Item.Read prev c cs i rest) (hp : Literal.Behind prev prev' (c :: cs))
    (hr : Replaces rest rest') (hne : i.opensClause = true → rest ≠ []) :
    ∃ cs', i.source ++ rest' = c :: cs' ∧ Item.Read prev' c cs' i rest' := by
  cases hclause : i.opensClause with
  | false => exact h.replace_of_not_opensClause hclause hp hr.toReplaces
  | true =>
    cases h with
    | @opening gap tail _ binding ho ht =>
      have hmarker : marker (marker tail ++ rest') = marker tail := by
        rw [hr.marker_eq, ← ht]
      have hne' : tail ≠ [] := by
        rw [ht]
        exact List.append_ne_nil_of_right_ne_nil _ (hne hclause)
      have ho' : Opened gap binding (marker tail ++ rest') := by
        refine ho.of_head? hne' fun x hx => ?_
        rw [ht] at hx
        exact hr.head?_append _ hx
      have hread :=
        @Read.opening prev' gap (marker tail ++ rest') rest' binding ho' (by rw [hmarker])
      rw [hmarker] at hread
      refine ⟨_, ?_, hread⟩
      simp only [source, List.cons_append, List.append_assoc]
    | _ => cases hclause

end Replaces

end Item

namespace Reading.Passes

/-- Items are read again in front of another rest. -/
theorem replace {prev prev' : Option Char} {cs rest rest' : List Char} {is : List Item}
    (h : Passes prev cs is rest)
    (hp : Literal.Behind prev prev' cs) (hr : Item.Replaces rest rest')
    (hne : ∀ i, is.getLast? = some i → i.opensClause = true → rest ≠ []) :
    Passes prev' (is.flatMap Item.source ++ rest') is rest' := by
  induction h generalizing prev' with
  | nil => exact .nil prev' rest'
  | @cons prev c cs mid rest i is hi hs ih =>
    have hmid := hs.eq_append
    have hne' (ho : i.opensClause = true) : mid ≠ [] := by
      cases hs with
      | nil => exact hne i rfl ho
      | cons hj => exact List.cons_ne_nil _ _
    have hreplaces := hr.append_left (is.flatMap Item.source)
    rw [← hmid] at hreplaces
    obtain ⟨cs', hcs, hread⟩ := (Item.read_eq_ok_iff.1 hi).replace hp hreplaces hne'
    rw [List.flatMap_cons, List.append_assoc, hcs]
    refine .cons (Item.read_eq_ok_iff.2 hread) (ih (fun _ => rfl) hr fun j hj => hne j ?_)
    cases is with
    | nil => cases hj
    | cons k is => rwa [List.getLast?_cons_cons]

end Reading.Passes

/-- Behind items only the rest is still to be read. -/
theorem readFrom_of_passes {prev : Option Char} {cs rest : List Char} {is : List Item}
    {level final : Nat} (h : Reading.Passes prev cs is rest)
    (hl : Nesting.levelBehind level is = .ok final) :
    readFrom level prev cs =
      prefixed is (readFrom final ((is.flatMap Item.source).getLast?.or prev) rest) := by
  induction h generalizing level with
  | nil prev rest =>
    cases hl
    rw [prefixed_nil]
    rfl
  | cons hi _ ih =>
    obtain ⟨next, hn, hr⟩ := Nesting.levelBehind_cons_eq_ok_iff.1 hl
    rw [readFrom_of_ok hi hn, ih hr, prefixed_prefixed, List.flatMap_cons,
      Reading.getLast?_append_or (Item.source_ne_nil_of_read hi)]
    rfl

end EscapeClause
