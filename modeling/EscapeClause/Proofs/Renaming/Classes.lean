import EscapeClause.Proofs.Opening
import Mathlib

/-! Texts with other characters. Of a character escape processing only asks whether it is one
of a few signs, whether it is blank, and which letter it is in either case. Main
statements: a map that keeps these classes commutes with words, gaps and lines, and with
passing over literals and comments. -/

namespace EscapeClause

open Text

/-- The characters that are told apart from all others. -/
def signs : List Char :=
  ['\'', '"', '$', '/', '-', '*', '{', '}', '?', '=', ' ', '\n', '\r',
    '0', '1', '2', '3', '4', '5', '6', '7', '8', '9']

/-- A map of characters that changes signs into nothing else and nothing else into signs,
keeps blanks apart from the rest, and takes a letter to itself in either case. -/
structure KeepsClasses (f : Char → Char) : Prop where
  sign : ∀ c ∈ signs, f c = c
  mem_signs : ∀ c, f c ∈ signs → c ∈ signs
  isBlank : ∀ c, isBlank (f c) = isBlank c
  letter : ∀ c, c.isAlpha = true → f c = c.toLower ∨ f c = c.toUpper
  isAlpha : ∀ c, (f c).isAlpha = true → c.isAlpha = true

theorem mem_signs_of_isDigit {c : Char} (h : c.isDigit = true) : c ∈ signs := by
  obtain ⟨hl, hu⟩ := Char.isDigit_iff_toNat.1 h
  have hl' : 48 ≤ c.toNat := hl
  have hu' : c.toNat ≤ 57 := hu
  rw [← Char.ofNat_toNat c]
  interval_cases c.toNat <;> decide

namespace KeepsClasses

variable {f : Char → Char} (hf : KeepsClasses f)

include hf

/-- A character becomes a sign only if it is that sign. -/
theorem eq_iff {c x : Char} (hx : x ∈ signs) : f c = x ↔ c = x := by
  constructor
  · intro h
    rw [← hf.sign c (hf.mem_signs c (h ▸ hx)), h]
  · rintro rfl
    exact hf.sign c hx

/-- A text of signs is renamed to itself. -/
theorem map_sign {mark : List Char} (hm : mark ⊆ signs) : mark.map f = mark := by
  have hmap : mark.map f = mark.map id := List.map_congr_left fun c hc => hf.sign c (hm hc)
  rw [hmap, List.map_id]

theorem isDigit (c : Char) : (f c).isDigit = c.isDigit := by
  rw [Bool.eq_iff_iff]
  constructor
  · intro h
    rwa [hf.sign c (hf.mem_signs c (mem_signs_of_isDigit h))] at h
  · intro h
    rwa [hf.sign c (mem_signs_of_isDigit h)]

theorem mayStartLiteral (c : Char) : Piece.mayStartLiteral (f c) = Piece.mayStartLiteral c := by
  have hsame {x : Char} (hx : x ∈ signs) : (f c == x) = (c == x) := by
    rw [Bool.eq_iff_iff, beq_iff_eq, beq_iff_eq, hf.eq_iff hx]
  simp only [Piece.mayStartLiteral]
  rw [hsame (by decide), hsame (by decide), hsame (by decide), hsame (by decide),
    hsame (by decide)]

section Words

variable {c x : Char} {w s : List Char}

/-- A letter in either case is renamed to the same letter in either case, and nothing else is. -/
theorem toLower_eq_iff (hx : x.isAlpha = true) : (f c).toLower = x ↔ c.toLower = x := by
  by_cases hc : c.isAlpha = true
  · rcases hf.letter c hc with h | h
    · rw [h, Char.toLower_toLower_eq_toLower]
    · rw [h, Char.toLower_toUpper_eq_toLower]
  · have hno (d : Char) (hd : ¬ d.isAlpha = true) : d.toLower ≠ x := by
      rintro rfl
      rw [Char.isAlpha_toLower_eq_isAlpha] at hx
      exact hd hx
    exact iff_of_false (hno _ (mt (hf.isAlpha c) hc)) (hno _ hc)

/-- A renamed word has the letters of another word if and only if the word has. -/
theorem map_toLower_eq_iff (hs : ∀ x ∈ s, x.isAlpha = true) :
    (w.map f).map Char.toLower = s ↔ w.map Char.toLower = s := by
  induction w generalizing s with
  | nil => rfl
  | cons c w ih =>
    cases s with
    | nil => simp
    | cons x s =>
      have hx := hs x List.mem_cons_self
      have htail := @ih s fun y hy => hs y (List.mem_cons_of_mem x hy)
      rw [List.map_cons, List.map_cons, List.map_cons, List.cons.injEq, List.cons.injEq,
        hf.toLower_eq_iff hx, htail]

/-- A word marks a clause whatever the case of its letters, and no other word does. -/
theorem marks_iff : Keyword.Marks (w.map f) ↔ Keyword.Marks w := by
  have halpha : ∀ s : List Char, s.all Char.isAlpha = true → ∀ x ∈ s, x.isAlpha = true :=
    fun _ => List.all_eq_true.1
  simp only [Keyword.Marks, List.mem_cons, List.not_mem_nil, or_false]
  rw [hf.map_toLower_eq_iff (halpha _ (by decide)), hf.map_toLower_eq_iff (halpha _ (by decide)),
    hf.map_toLower_eq_iff (halpha _ (by decide))]

end Words

section Text

variable (cs : List Char)

theorem isBlank_comp : Text.isBlank ∘ f = Text.isBlank := funext hf.isBlank

theorem gap_map : gap (cs.map f) = (gap cs).map f := by
  rw [gap, List.takeWhile_map, hf.isBlank_comp, gap]

theorem dropGap_map : dropGap (cs.map f) = (dropGap cs).map f := by
  rw [dropGap, List.dropWhile_map, hf.isBlank_comp, dropGap]

/-- Words and gaps end at the same places. -/
theorem word_map : word (cs.map f) = (word cs).map f := by
  have hcomp : (fun c => !Text.isBlank c) ∘ f = fun c => !Text.isBlank c :=
    funext fun c => congrArg not (hf.isBlank c)
  rw [word, List.takeWhile_map, hcomp, word]

theorem isLineEnd_comp : (fun c => !isLineEnd c) ∘ f = fun c => !isLineEnd c := by
  funext c
  have hsame {x : Char} (hx : x ∈ signs) : (f c == x) = (c == x) := by
    rw [Bool.eq_iff_iff, beq_iff_eq, beq_iff_eq, hf.eq_iff hx]
  simp only [Function.comp_apply, isLineEnd]
  rw [hsame (by decide), hsame (by decide)]

theorem lineRest_map : lineRest (cs.map f) = (lineRest cs).map f := by
  rw [lineRest, List.takeWhile_map, hf.isLineEnd_comp, lineRest]

theorem dropLine_map : dropLine (cs.map f) = (dropLine cs).map f := by
  rw [dropLine, List.dropWhile_map, hf.isLineEnd_comp, dropLine]

theorem isGap_map {g : List Char} (hg : IsGap g) : IsGap (g.map f) := by
  intro c hc
  obtain ⟨d, hd, rfl⟩ := List.mem_map.1 hc
  rw [hf.isBlank]
  exact hg d hd

theorem markerLength_map : Item.markerLength (cs.map f) = Item.markerLength cs := by
  rw [Item.markerLength_eq, Item.markerLength_eq, Keyword.blankLength_ofWord?,
    Keyword.blankLength_ofWord?, hf.word_map, List.length_map]
  simp only [hf.marks_iff]

/-- A mark made of signs begins a renamed text if and only if it begins the text. -/
theorem prefix_map_iff {mark : List Char} (hm : mark ⊆ signs) :
    mark <+: cs.map f ↔ mark <+: cs := by
  constructor
  · intro h
    obtain ⟨l, hl, hmap⟩ := List.prefix_map_iff.1 h
    have hsigns : l ⊆ signs := fun c hc => hf.mem_signs c (hm (hmap ▸ List.mem_map_of_mem hc))
    rwa [hmap, hf.map_sign hsigns]
  · intro h
    have hmap := h.map f
    rwa [hf.map_sign hm] at hmap

/-- A mark made of signs is found at the same place. -/
theorem splitAfter_map {mark : List Char} (hm : mark ⊆ signs) :
    splitAfter mark (cs.map f) = (splitAfter mark cs).map (Prod.map (List.map f) (List.map f)) := by
  induction cs with
  | nil =>
    rw [List.map_nil, splitAfter]
    split
    · next h => rw [List.prefix_nil.1 h]; rfl
    · rfl
  | cons c cs ih =>
    have hcons := hf.prefix_map_iff (c :: cs) hm
    rw [List.map_cons] at hcons ⊢
    rw [splitAfter, splitAfter]
    by_cases h : mark <+: c :: cs
    · rw [if_pos (hcons.2 h), if_pos h, Option.map_some, Prod.map_apply, hf.map_sign hm,
        ← List.map_cons, List.map_drop]
    · rw [if_neg (mt hcons.1 h), if_neg h, ih, Option.map_map, Option.map_map]
      rfl

end Text

section Literal

open Literal

variable {prev : Option Char} {cs : List Char}

omit hf in
theorem mark_subset {o : Opening} (ho : o.Starts prev) : o.mark ⊆ signs := by
  rcases o with kind | mark
  · cases kind <;> decide
  · rcases ho with rfl | rfl <;> decide

/-- Whether two dollars count depends on a blank before them, which stays one. -/
theorem starts_iff {o : Opening} : o.Starts (prev.map f) ↔ o.Starts prev := by
  have hall : (prev.map f).all Text.isBlank = prev.all Text.isBlank := by
    rw [Option.all_map]
    simp only [hf.isBlank]
  rcases o with kind | mark
  · cases kind with
    | dollarQuoted => rw [Opening.Starts, Opening.Starts, hall]
    | _ => exact Iff.rfl
  · exact Iff.rfl

/-- The same literal or comment opens, in front of the renamed rest. -/
theorem opening?_map :
    opening? (prev.map f) (cs.map f) = (opening? prev cs).map (Prod.map id (List.map f)) := by
  ext ⟨o, body⟩
  rw [Option.map_eq_some_iff, opening?_eq_some_iff, hf.starts_iff]
  constructor
  · rintro ⟨hcs, ho⟩
    obtain ⟨mark, tail, rfl, hmark, rfl⟩ := List.map_eq_append_iff.1 hcs
    have hsigns : mark ⊆ signs := fun c hc =>
      hf.mem_signs c (mark_subset ho (hmark ▸ List.mem_map_of_mem hc))
    rw [hf.map_sign hsigns] at hmark
    subst hmark
    exact ⟨(o, tail), opening?_eq_some_iff.2 ⟨rfl, ho⟩, rfl⟩
  · rintro ⟨⟨o', tail⟩, h, he⟩
    obtain ⟨rfl, ho⟩ := opening?_eq_some_iff.1 h
    cases he
    exact ⟨by rw [List.map_append, hf.map_sign (mark_subset ho)]; rfl, ho⟩

theorem pass_map {o : Opening} (ho : o.Starts prev) (body : List Char) :
    o.pass (body.map f) = (o.pass body).map (Prod.map (List.map f) (List.map f)) := by
  have hmark := hf.map_sign (mark_subset ho)
  rcases o with kind | mark
  · have hcloser : kind.closer ⊆ signs := by cases kind <;> decide
    have hopener : kind.opener.map f = kind.opener := hmark
    rw [Opening.pass, Opening.pass, hf.splitAfter_map body hcloser]
    cases splitAfter kind.closer body with
    | none => rfl
    | some r => simp [Except.map, hopener]
  · have hsame : mark.map f = mark := hmark
    rw [Opening.pass, Opening.pass, hf.lineRest_map, hf.dropLine_map]
    simp [Except.map, hsame]

/-- What is passed over is renamed, and so is what is left. A literal or comment that is not
closed stays so. -/
theorem skip_map :
    skip (prev.map f) (cs.map f) = (skip prev cs).map (Prod.map (List.map f) (List.map f)) := by
  rw [skip, skip, hf.opening?_map]
  cases ho : opening? prev cs with
  | none => simp [Except.map, List.map_take]
  | some r =>
    obtain ⟨o, body⟩ := r
    exact hf.pass_map (opening?_eq_some_iff.1 ho).2 body

end Literal

end KeepsClasses

end EscapeClause
