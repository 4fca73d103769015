import EscapeClause.Clause.Item
import EscapeClause.Proofs.Literal

/-! How the items of a statement are read. An inert character takes no part in escape
processing, whatever stands around it. The text behind an opening brace has one of five
shapes, and each decides what is read. -/

namespace EscapeClause

namespace Keyword

theorem ofWord?_eq_some_iff {word : List Char} {k : Keyword} :
    ofWord? word = some k ↔ word.map Char.toLower = k.spelling.toList := by
  refine ⟨map_toLower_of_ofWord?, fun h => ?_⟩
  rw [ofWord?, h]
  cases k <;> decide

/-- Whether a word spells one of the keywords that only mark a clause. -/
def Marks (word : List Char) : Prop :=
  word.map Char.toLower ∈ ["fn".toList, "oj".toList, "params".toList]

instance (word : List Char) : Decidable (Marks word) := by
  unfold Marks
  infer_instance

theorem marks_iff_of_ofWord? {word : List Char} {k : Keyword} (h : ofWord? word = some k) :
    Marks word ↔ 0 < k.blankLength := by
  rw [Marks, map_toLower_of_ofWord? h]
  cases k <;> decide

theorem not_marks_of_ofWord? {word : List Char} (h : ofWord? word = none) : ¬ Marks word := by
  have hne (k : Keyword) : word.map Char.toLower ≠ k.spelling.toList := by
    intro hk
    rw [ofWord?_eq_some_iff.2 hk] at h
    cases h
  intro hm
  simp only [Marks, List.mem_cons, List.not_mem_nil, or_false] at hm
  rcases hm with hm | hm | hm
  · exact hne scalarFunction hm
  · exact hne outerJoin hm
  · exact hne parameters hm

/-- A word is blanked as a whole or not at all. -/
theorem blankLength_ofWord? (word : List Char) :
    (ofWord? word).elim 0 blankLength = if Marks word then word.length else 0 := by
  cases hk : ofWord? word with
  | none => exact (if_neg (not_marks_of_ofWord? hk)).symm
  | some k =>
    have hm := marks_iff_of_ofWord? hk
    have hl := length_of_ofWord? hk
    rw [Option.elim_some, hl]
    simp only [hm]
    cases k <;> rfl

/-- A character of a marking keyword is one of its letters, in either case. -/
theorem toLower_mem_of_marks {word : List Char} (h : Marks word) {c : Char} (hc : c ∈ word) :
    c.toLower ∈ "fnojparams".toList := by
  have hall : ["fn".toList, "oj".toList, "params".toList].all fun w =>
      w.all fun x => "fnojparams".toList.contains x := by decide
  have hword := List.all_eq_true.1 (List.all_eq_true.1 hall _ h) _ (List.mem_map_of_mem hc)
  exact List.contains_iff_mem.1 hword

end Keyword

/-- The characters that are not inert. -/
def specials : List Char := ['\'', '"', '$', '/', '-', '{', '}']

/-- A character that is passed over on its own wherever it stands. -/
def Inert (c : Char) : Prop := c ∉ specials

instance (c : Char) : Decidable (Inert c) := inferInstanceAs (Decidable (c ∉ specials))

theorem inert_iff {c : Char} :
    Inert c ↔ Piece.mayStartLiteral c = false ∧ c ≠ '{' ∧ c ≠ '}' := by
  simp only [Inert, specials, List.mem_cons, List.not_mem_nil, or_false, not_or,
    Piece.mayStartLiteral, Bool.or_eq_false_iff, beq_eq_false_iff_ne, ne_eq, and_assoc]

theorem inert_of_isBlank {c : Char} (h : Text.isBlank c = true) : Inert c := by
  have hall : specials.all fun x => !Text.isBlank x := by decide
  intro hc
  simpa [h] using List.all_eq_true.1 hall c hc

theorem inert_of_mem_marks {word : List Char} (h : Keyword.Marks word) {c : Char}
    (hc : c ∈ word) : Inert c := by
  have hall : specials.all fun x => !"fnojparams".toList.contains x.toLower := by decide
  intro hs
  have hno : (!"fnojparams".toList.contains c.toLower) = true := List.all_eq_true.1 hall c hs
  rw [List.contains_iff_mem.2 (Keyword.toLower_mem_of_marks h hc)] at hno
  cases hno

theorem utf8Size_of_mem_marks {word : List Char} (h : Keyword.Marks word) {c : Char}
    (hc : c ∈ word) : c.utf8Size = 1 := by
  have hall : "fnojparams".toList.all fun x => x.val ≤ 127 := by decide
  have hl := of_decide_eq_true (List.all_eq_true.1 hall _ (Keyword.toLower_mem_of_marks h hc))
  by_cases hu : c.val ≤ 'Z'.val
  · exact if_pos (UInt32.le_trans hu (by decide))
  · have hsame : c.toLower = c := dif_neg fun h => hu h.2
    rw [hsame] at hl
    exact if_pos hl

namespace Piece

/-- A literal or comment starts with a character of one byte. -/
theorem utf8Size_of_mayStartLiteral {c : Char} (h : mayStartLiteral c = true) :
    c.utf8Size = 1 := by
  have hspecial : ¬ Inert c := fun hi => by
    rw [(inert_iff.1 hi).1] at h
    cases h
  have hall : specials.all fun x => x.utf8Size = 1 := by decide
  exact of_decide_eq_true (List.all_eq_true.1 hall c (Decidable.not_not.1 hspecial))

theorem read_of_inert {c : Char} (h : Inert c) (prev : Option Char) (cs : List Char) :
    read prev c cs = .ok (plain c, cs) := by
  rw [read, (inert_iff.1 h).1]
  rfl

theorem read_replace {prev prev' : Option Char} {c : Char} {cs rest rest' : List Char} {p : Piece}
    (h : read prev c cs = .ok (p, rest)) (hp : Literal.Behind prev prev' (c :: cs))
    (hr : Literal.Replaces rest rest') :
    ∃ cs', p.text ++ rest' = c :: cs' ∧ read prev' c cs' = .ok (p, rest') := by
  have hcs := append_of_read h
  obtain ⟨d, tail, ht⟩ := List.exists_cons_of_ne_nil (text_ne_nil_of_read h)
  rw [ht] at hcs ⊢
  obtain ⟨rfl, -⟩ := List.cons.inj hcs
  refine ⟨tail ++ rest', rfl, ?_⟩
  unfold read at h ⊢
  split at h
  · next hm =>
    rw [if_pos hm]
    split at h
    · next text after hs =>
      cases h
      have hs' := Literal.skip_replace hs (List.cons_ne_nil _ _) hp hr
      rw [show text = c :: tail from ht] at hs' ⊢
      rw [← List.cons_append, hs']
    · cases h
  · next hm =>
    cases h
    cases ht
    rw [if_neg hm]
    rfl

end Piece

namespace Item

open Text

@[simp] theorem readBody_closing (prev : Option Char) (cs : List Char) :
    readBody prev ('}' :: cs) = .ok ([], cs) := by
  rw [readBody, if_pos rfl]

theorem readBody_of_ok {prev : Option Char} {c : Char} {cs rest : List Char} {p : Piece}
    (hc : c ≠ '}') (h : Piece.read prev c cs = .ok (p, rest)) :
    readBody prev (c :: cs) =
      match readBody p.text.getLast? rest with
      | .error f => .error (f.behind p.text)
      | .ok (body, rest) => .ok (p :: body, rest) := by
  rw [readBody, if_neg hc]
  split
  · next he => rw [h] at he; cases he
  · next he => rw [h] at he; cases he; rfl

/-- The body of a native literal is not empty, for a digit is no closing brace. -/
theorem flatMap_text_of_isDigit {prev : Option Char} {d : Char} {ds rest : List Char}
    {body : List Piece} (hd : d.isDigit = true) (h : readBody prev (d :: ds) = .ok (body, rest)) :
    ∃ xs, body.flatMap Piece.text = d :: xs := by
  have hsource := append_of_readBody h
  cases hbody : body.flatMap Piece.text with
  | nil =>
    rw [hbody] at hsource
    obtain ⟨rfl, -⟩ := List.cons.inj hsource
    cases hd
  | cons x xs =>
    rw [hbody] at hsource
    obtain ⟨rfl, -⟩ := List.cons.inj hsource
    exact ⟨xs, rfl⟩

theorem readBody_replace {prev prev' : Option Char} {cs rest : List Char} {body : List Piece}
    (h : readBody prev cs = .ok (body, rest)) (hp : Literal.Behind prev prev' cs)
    (rest' : List Char) :
    readBody prev' (body.flatMap Piece.text ++ '}' :: rest') = .ok (body, rest') := by
  fun_induction readBody prev cs generalizing body prev' with
  | case1 => cases h
  | case2 => cases h; exact readBody_closing prev' rest'
  | case3 => cases h
  | case4 => cases h
  | case5 prev c cs hc p after hpc _ tail after' hb ih =>
    cases h
    have hsame : Literal.Replaces after (tail.flatMap Piece.text ++ '}' :: rest') := by
      apply Literal.Replaces.of_head?_eq
      rw [append_of_readBody hb]
      cases tail.flatMap Piece.text <;> rfl
    obtain ⟨cs', hcs', hread⟩ := Piece.read_replace hpc hp hsame
    rw [List.flatMap_cons, List.append_assoc, hcs', readBody_of_ok hc hread,
      ih hb fun _ => rfl]

end Item

end EscapeClause
