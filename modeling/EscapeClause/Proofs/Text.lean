import EscapeClause.Text.Blank
import EscapeClause.Text.Location

/-! Splitting texts at byte positions and at blanks. A text splits at a byte position in
at most one way, and the gap and the word at the front of a text are the only ones of
their kind that end where they end. -/

namespace EscapeClause.Text

theorem append_inj_byteLength {before before' after after' : List Char}
    (h : before ++ after = before' ++ after') (hl : byteLength before = byteLength before') :
    before = before' ∧ after = after' := by
  have hb := locate_byteLength before after
  rw [h, hl, locate_byteLength] at hb
  cases hb
  exact ⟨rfl, rfl⟩

theorem length_le_byteLength (cs : List Char) : cs.length ≤ byteLength cs := by
  induction cs with
  | nil => exact Nat.le_refl 0
  | cons c cs ih =>
    have := c.utf8Size_pos
    rw [List.length_cons, byteLength_cons]
    omega

theorem byteLength_eq_zero_iff {cs : List Char} : byteLength cs = 0 ↔ cs = [] := by
  constructor
  · intro h
    have := length_le_byteLength cs
    exact List.eq_nil_of_length_eq_zero (by omega)
  · rintro rfl
    rfl

theorem byteLength_eq_length {cs : List Char} (h : ∀ c ∈ cs, c.utf8Size = 1) :
    byteLength cs = cs.length := by
  induction cs with
  | nil => rfl
  | cons c cs ih =>
    rw [byteLength_cons, List.length_cons, h c List.mem_cons_self,
      ih fun d hd => h d (List.mem_cons_of_mem c hd), Nat.add_comm]

theorem utf8Size_of_all {cs : List Char} (h : (cs.all fun c => c.utf8Size == 1) = true) :
    ∀ c ∈ cs, c.utf8Size = 1 :=
  fun c hc => eq_of_beq (List.all_eq_true.1 h c hc)

theorem byteLength_replicate_space (n : Nat) : byteLength (List.replicate n ' ') = n := by
  induction n with
  | zero => rfl
  | succ n ih =>
    have hs : ' '.utf8Size = 1 := by decide
    rw [List.replicate_succ, byteLength_cons, ih, hs, Nat.add_comm]

/-- A byte position between two characters, at the start or at the end. -/
def IsBoundary (cs : List Char) (p : Nat) : Prop :=
  ∃ before after, cs = before ++ after ∧ p = byteLength before

theorem isBoundary_append_iff {cs ds : List Char} {p : Nat} :
    IsBoundary (cs ++ ds) p ↔
      IsBoundary cs p ∨ byteLength cs ≤ p ∧ IsBoundary ds (p - byteLength cs) := by
  constructor
  · rintro ⟨before, after, h, rfl⟩
    rcases List.append_eq_append_iff.1 h with ⟨mid, rfl, rfl⟩ | ⟨mid, rfl, rfl⟩
    · exact .inr ⟨by simp, mid, after, rfl, by simp⟩
    · exact .inl ⟨before, mid, rfl, rfl⟩
  · rintro (⟨before, after, rfl, rfl⟩ | ⟨hp, before, after, rfl, hq⟩)
    · exact ⟨before, after ++ ds, List.append_assoc .., rfl⟩
    · exact ⟨cs ++ before, after, (List.append_assoc ..).symm, by rw [byteLength_append]; omega⟩

theorem isBoundary_of_utf8Size_eq_one {cs : List Char} (h : ∀ c ∈ cs, c.utf8Size = 1) {p : Nat} :
    IsBoundary cs p ↔ p ≤ cs.length := by
  constructor
  · rintro ⟨before, after, rfl, rfl⟩
    rw [byteLength_eq_length fun c hc => h c (List.mem_append_left _ hc), List.length_append]
    omega
  · intro hp
    refine ⟨cs.take p, cs.drop p, (List.take_append_drop p cs).symm, ?_⟩
    rw [byteLength_eq_length fun c hc => h c (List.mem_of_mem_take hc), List.length_take]
    omega

/-- A byte position within a character is no boundary. -/
theorem not_isBoundary_of_inside {before after : List Char} {x : Char} {p : Nat}
    (hlt : byteLength before < p) (hgt : p < byteLength before + x.utf8Size) :
    ¬ IsBoundary (before ++ x :: after) p := by
  rintro ⟨before', after', h, rfl⟩
  rcases List.append_eq_append_iff.1 h with ⟨mid, rfl, hmid⟩ | ⟨mid, rfl, -⟩
  · cases mid with
    | nil => simp at hlt
    | cons y mid =>
      obtain ⟨rfl, -⟩ := List.cons.inj hmid
      rw [byteLength_append, byteLength_cons] at hgt
      omega
  · rw [byteLength_append] at hlt
    omega

/-- A list of blanks. -/
def IsGap (cs : List Char) : Prop := ∀ c ∈ cs, isBlank c = true

theorem isGap_gap (cs : List Char) : IsGap (gap cs) := by
  intro c hc
  exact List.all_eq_true.1 List.all_takeWhile c hc

theorem IsGap.concat {g : List Char} (hg : IsGap g) {c : Char} (hc : isBlank c = true) :
    IsGap (g ++ [c]) := by
  intro d hd
  rcases List.mem_append.1 hd with hd | hd
  · exact hg d hd
  · rwa [List.mem_singleton.1 hd]

theorem gap_append {g cs : List Char} (hg : IsGap g) : gap (g ++ cs) = g ++ gap cs :=
  List.takeWhile_append_of_pos hg

theorem dropGap_append {g cs : List Char} (hg : IsGap g) : dropGap (g ++ cs) = dropGap cs :=
  List.dropWhile_append_of_pos hg

theorem isBlank_of_dropGap_eq_cons {c : Char} {cs rest : List Char}
    (h : dropGap cs = c :: rest) : isBlank c = false := by
  have hd := List.head?_dropWhile_not isBlank cs
  rw [dropGap] at h
  rw [h] at hd
  simpa using hd

theorem isBlank_of_head?_dropGap {cs : List Char} :
    ∀ c ∈ (dropGap cs).head?, isBlank c = false := by
  intro c hc
  obtain ⟨tail, ht⟩ := List.head?_eq_some_iff.1 hc
  exact isBlank_of_dropGap_eq_cons ht

theorem head?_of_not_isBlank {c : Char} {cs : List Char} (hb : isBlank c = false) :
    ∀ x ∈ (c :: cs).head?, isBlank x = false := by
  rintro x ⟨⟩
  exact hb

theorem gap_of_not_isBlank {c : Char} {cs : List Char} (hc : isBlank c = false) :
    gap (c :: cs) = [] :=
  List.takeWhile_cons_of_neg (by simp [hc])

theorem dropGap_of_not_isBlank {c : Char} {cs : List Char} (hc : isBlank c = false) :
    dropGap (c :: cs) = c :: cs :=
  List.dropWhile_cons_of_neg (by simp [hc])

theorem gap_append_of_head {g cs : List Char} (hg : IsGap g)
    (hc : ∀ c ∈ cs.head?, isBlank c = false) : gap (g ++ cs) = g := by
  rw [gap_append hg]
  cases cs with
  | nil => exact List.append_nil g
  | cons c cs => rw [gap_of_not_isBlank (hc c rfl), List.append_nil]

theorem dropGap_append_of_head {g cs : List Char} (hg : IsGap g)
    (hc : ∀ c ∈ cs.head?, isBlank c = false) : dropGap (g ++ cs) = cs := by
  rw [dropGap_append hg]
  cases cs with
  | nil => rfl
  | cons c cs => exact dropGap_of_not_isBlank (hc c rfl)

/-- A gap and what follows it can be told apart. -/
theorem gap_append_inj {g g' cs cs' : List Char} (hg : IsGap g) (hg' : IsGap g')
    (hc : ∀ c ∈ cs.head?, isBlank c = false) (hc' : ∀ c ∈ cs'.head?, isBlank c = false)
    (h : g ++ cs = g' ++ cs') : g = g' ∧ cs = cs' := by
  have hgap := congrArg gap h
  have hrest := congrArg dropGap h
  rw [gap_append_of_head hg hc, gap_append_of_head hg' hc'] at hgap
  rw [dropGap_append_of_head hg hc, dropGap_append_of_head hg' hc'] at hrest
  exact ⟨hgap, hrest⟩

/-- A word ends at the next blank. -/
theorem word_append_of_isBlank {c : Char} (hc : isBlank c = true) (cs more : List Char) :
    word (cs ++ c :: more) = word cs := by
  have hp : ¬ (!isBlank c) = true := by simp [hc]
  induction cs with
  | nil => exact List.takeWhile_cons_of_neg hp
  | cons d cs ih =>
    rw [word] at ih ⊢
    rw [List.cons_append, List.takeWhile_cons, ih, word, word, List.takeWhile_cons]

end EscapeClause.Text
