import EscapeClause.Proofs.Item

/-! What an opening brace begins. The text behind the brace has one of five shapes, with a
theorem for what is read in each. A marker is blanked only as a whole word. -/

namespace EscapeClause

open Text

theorem Binding.source_append (b : Binding) (cs : List Char) :
    b.source ++ cs = '?' :: (b.gap ++ '=' :: (b.gapAfter ++ cs)) := by
  simp only [source, List.cons_append, List.append_assoc]

namespace Item

/-- The marker at the front of a text, if its first word is one. -/
def marker (cs : List Char) : List Char := if Keyword.Marks (word cs) then word cs else []

/-- The characters that are blanked behind a gap are those of the marker. -/
theorem take_markerLength (cs : List Char) : cs.take (markerLength cs) = marker cs := by
  rw [markerLength_eq, Keyword.blankLength_ofWord?, marker]
  split
  · exact (List.prefix_iff_eq_take.1 (List.takeWhile_prefix _)).symm
  · exact List.take_zero

theorem readMarker_eq (gap : List Char) (binding : Option Binding) (cs : List Char) :
    readMarker gap binding cs =
      (opening gap binding (marker cs), cs.drop (markerLength cs)) := by
  rw [readMarker, take_markerLength]

theorem marker_append_drop (cs : List Char) : marker cs ++ cs.drop (markerLength cs) = cs := by
  rw [← take_markerLength, List.take_append_drop]

theorem marks_of_mem_marker {c : Char} {cs : List Char} (hc : c ∈ marker cs) :
    Keyword.Marks (word cs) ∧ c ∈ word cs := by
  rw [marker] at hc
  split at hc
  · next hm => exact ⟨hm, hc⟩
  · cases hc

theorem byteLength_marker (cs : List Char) : byteLength (marker cs) = (marker cs).length :=
  byteLength_eq_length fun _ hc =>
    have ⟨hm, hw⟩ := marks_of_mem_marker hc
    utf8Size_of_mem_marks hm hw

/-- The longest marker has six letters. -/
theorem length_marker_le (cs : List Char) : (marker cs).length ≤ 6 := by
  rw [← take_markerLength, markerLength]
  refine Nat.le_trans (List.length_take_le ..) ?_
  cases Keyword.ofWord? (word (cs.take 7)) with
  | none => exact Nat.zero_le 6
  | some k => exact k.blankLength_le

theorem inert_of_mem_marker {c : Char} {cs : List Char} (hc : c ∈ marker cs) : Inert c :=
  have ⟨hm, hw⟩ := marks_of_mem_marker hc
  inert_of_mem_marks hm hw

theorem isBlank_of_isDigit {c : Char} (h : c.isDigit = true) : isBlank c = false := by
  simp only [Char.isDigit, Bool.and_eq_true, decide_eq_true_eq, ge_iff_le,
    UInt32.le_iff_toNat_le] at h
  have hl : 48 ≤ c.toNat := h.1
  have hu : c.toNat ≤ 57 := h.2
  simp only [isBlank, blankRanges, List.any_cons, List.any_nil, Bool.or_false,
    Bool.or_eq_false_iff, Bool.and_eq_false_iff, decide_eq_false_iff_not]
  omega

/-- The text behind an opening brace, by what it makes of the brace: nothing follows the
gap, a native literal, a clause without binding, one with a binding, or one whose
binding lacks its equals sign. -/
inductive Header : List Char → Prop where
  | ended {gap : List Char} (hg : IsGap gap) : Header gap
  | native {gap : List Char} {d : Char} {cs : List Char} (hg : IsGap gap)
      (hd : d.isDigit = true) : Header (gap ++ d :: cs)
  | clause {gap : List Char} {c : Char} {cs : List Char} (hg : IsGap gap)
      (hb : isBlank c = false) (hd : c.isDigit = false) (hq : c ≠ '?') : Header (gap ++ c :: cs)
  | bound {gap gap₁ cs : List Char} (hg : IsGap gap) (h₁ : IsGap gap₁) :
      Header (gap ++ '?' :: (gap₁ ++ '=' :: cs))
  | unbound {gap gap₁ cs : List Char} (hg : IsGap gap) (h₁ : IsGap gap₁)
      (hc : ∀ c ∈ cs.head?, isBlank c = false ∧ c ≠ '=') : Header (gap ++ '?' :: (gap₁ ++ cs))

theorem header (cs : List Char) : Header cs := by
  have hcs := gap_append_dropGap cs
  cases hd : dropGap cs with
  | nil =>
    rw [hd, List.append_nil] at hcs
    rw [← hcs]
    exact .ended (isGap_gap cs)
  | cons c rest =>
    have hb := isBlank_of_dropGap_eq_cons hd
    rw [← hcs, hd]
    by_cases hn : c.isDigit = true
    · exact .native (isGap_gap cs) hn
    by_cases hq : c = '?'
    · subst hq
      have hrest := gap_append_dropGap rest
      rw [← hrest]
      cases he : dropGap rest with
      | nil => exact .unbound (isGap_gap cs) (isGap_gap rest) (by rintro c ⟨⟩)
      | cons e tail =>
        by_cases heq : e = '='
        · subst heq
          exact .bound (isGap_gap cs) (isGap_gap rest)
        · refine .unbound (isGap_gap cs) (isGap_gap rest) fun c hc => ?_
          cases hc
          exact ⟨isBlank_of_dropGap_eq_cons he, heq⟩
    · exact .clause (isGap_gap cs) hb (by simpa using hn) hq

theorem readOpening_ended {gap : List Char} (hg : IsGap gap) :
    readOpening gap = .error ⟨unterminatedClause, '{' :: gap⟩ := by
  have hgap := @gap_append gap [] hg
  have hdrop := @dropGap_append gap [] hg
  rw [List.append_nil] at hgap hdrop
  rw [readOpening, hgap, hdrop]
  simp [Text.gap, dropGap]

section Shapes

variable {gap : List Char} {c : Char} {cs : List Char}

theorem readOpening_of_not_isBlank (hg : IsGap gap) (hb : isBlank c = false) :
    readOpening (gap ++ c :: cs) =
      if c.isDigit then
        match readBody ('{' :: gap).getLast? (c :: cs) with
        | .error f => .error (f.behind ('{' :: gap))
        | .ok (body, rest) => .ok (native gap body, rest)
      else if c = '?' then
        match dropGap cs with
        | '=' :: after =>
          .ok (readMarker gap (some ⟨Text.gap cs, Text.gap after⟩) (dropGap after))
        | _ => .error ⟨.expected "=", '{' :: gap ++ '?' :: Text.gap cs⟩
      else .ok (readMarker gap none (c :: cs)) := by
  have hc := @head?_of_not_isBlank c cs hb
  rewrite [readOpening, gap_append_of_head hg hc, dropGap_append_of_head hg hc]
  rfl

theorem readOpening_native (hg : IsGap gap) (hd : c.isDigit = true) :
    readOpening (gap ++ c :: cs) =
      match readBody ('{' :: gap).getLast? (c :: cs) with
      | .error f => .error (f.behind ('{' :: gap))
      | .ok (body, rest) => .ok (native gap body, rest) := by
  rw [readOpening_of_not_isBlank hg (isBlank_of_isDigit hd), if_pos hd]

theorem readOpening_clause (hg : IsGap gap) (hb : isBlank c = false) (hd : c.isDigit = false)
    (hq : c ≠ '?') : readOpening (gap ++ c :: cs) = .ok (readMarker gap none (c :: cs)) := by
  rw [readOpening_of_not_isBlank hg hb, if_neg (by simp [hd]), if_neg hq]

theorem readOpening_bound {gap₁ : List Char} (hg : IsGap gap) (h₁ : IsGap gap₁) :
    readOpening (gap ++ '?' :: (gap₁ ++ '=' :: cs)) =
      .ok (readMarker gap (some ⟨gap₁, Text.gap cs⟩) (dropGap cs)) := by
  have he : ∀ c ∈ ('=' :: cs).head?, isBlank c = false := head?_of_not_isBlank (by decide)
  rw [readOpening_of_not_isBlank hg (by decide), if_neg (by decide), if_pos rfl,
    dropGap_append_of_head h₁ he, gap_append_of_head h₁ he]
  rfl

theorem readOpening_unbound {gap₁ : List Char} (hg : IsGap gap) (h₁ : IsGap gap₁)
    (hc : ∀ c ∈ cs.head?, isBlank c = false ∧ c ≠ '=') :
    readOpening (gap ++ '?' :: (gap₁ ++ cs)) =
      .error ⟨.expected "=", '{' :: gap ++ '?' :: gap₁⟩ := by
  have hb : ∀ c ∈ cs.head?, isBlank c = false := fun c h => (hc c h).1
  rw [readOpening_of_not_isBlank hg (by decide), if_neg (by decide), if_pos rfl,
    dropGap_append_of_head h₁ hb, gap_append_of_head h₁ hb]
  split
  · next after =>
    have := (hc '=' rfl).2
    contradiction
  · rfl

end Shapes

/-- The head of a clause, with the text in which its marker may stand. -/
inductive Opened : List Char → Option Binding → List Char → Prop where
  | clause {gap : List Char} {c : Char} {cs : List Char} (hg : IsGap gap)
      (hb : isBlank c = false) (hd : c.isDigit = false) (hq : c ≠ '?') : Opened gap none (c :: cs)
  | bound {gap tail : List Char} {b : Binding} (hg : IsGap gap) (h₁ : IsGap b.gap)
      (h₂ : IsGap b.gapAfter) (ht : ∀ c ∈ tail.head?, isBlank c = false) :
      Opened gap (some b) tail

theorem Opened.isGap {gap tail : List Char} {binding : Option Binding}
    (h : Opened gap binding tail) : IsGap gap := by
  cases h <;> assumption

theorem Opened.bound_gap (gap : List Char) {gap₁ : List Char} (cs : List Char) (hg : IsGap gap)
    (h₁ : IsGap gap₁) : Opened gap (some ⟨gap₁, Text.gap cs⟩) (dropGap cs) :=
  .bound hg h₁ (isGap_gap cs) isBlank_of_head?_dropGap

theorem readOpening_opened {gap tail : List Char} {binding : Option Binding}
    (h : Opened gap binding tail) :
    readOpening (gap ++ (binding.elim [] Binding.source ++ tail)) =
      .ok (opening gap binding (marker tail), tail.drop (markerLength tail)) := by
  cases h with
  | clause hg hb hd hq =>
    rw [← readMarker_eq]
    exact readOpening_clause hg hb hd hq
  | @bound _ b hg h₁ h₂ ht =>
    have hr := @readOpening_bound gap (b.gapAfter ++ tail) b.gap hg h₁
    rw [gap_append_of_head h₂ ht, dropGap_append_of_head h₂ ht, readMarker_eq] at hr
    rw [← hr, Option.elim_some, Binding.source_append]

/-- `Read prev c cs i rest`: the item `i` is what begins with `c`, behind `prev` and in front
of `cs`, and `rest` is left. There is one way to read each kind of item. -/
inductive Read (prev : Option Char) : Char → List Char → Item → List Char → Prop where
  | piece {c : Char} {cs rest : List Char} {p : Piece} (ho : c ≠ '{') (hc : c ≠ '}')
      (hp : Piece.read prev c cs = .ok (p, rest)) : Read prev c cs (piece p) rest
  | closing (rest : List Char) : Read prev '}' rest closing rest
  | native {gap ds rest : List Char} {d : Char} {body : List Piece} (hg : IsGap gap)
      (hd : d.isDigit = true)
      (hb : readBody ('{' :: gap).getLast? (d :: ds) = .ok (body, rest)) :
      Read prev '{' (gap ++ d :: ds) (native gap body) rest
  | opening {gap tail rest : List Char} {binding : Option Binding}
      (ho : Opened gap binding tail) (ht : tail = marker tail ++ rest) :
      Read prev '{' (gap ++ (binding.elim [] Binding.source ++ tail))
        (opening gap binding (marker tail)) rest

theorem read_of_readOpening {prev : Option Char} {cs rest : List Char} {i : Item}
    (h : readOpening cs = .ok (i, rest)) : Read prev '{' cs i rest := by
  have hclause {gap tail : List Char} {binding : Option Binding} (ho : Opened gap binding tail)
      (hcs : cs = gap ++ (binding.elim [] Binding.source ++ tail)) : Read prev '{' cs i rest := by
    rw [hcs, readOpening_opened ho] at h
    cases h
    rw [hcs]
    exact .opening ho (marker_append_drop tail).symm
  have hs := header cs
  cases hs with
  | ended hg => rw [readOpening_ended hg] at h; cases h
  | unbound hg h₁ hc => rw [readOpening_unbound hg h₁ hc] at h; cases h
  | native hg hd =>
    rw [readOpening_native hg hd] at h
    split at h
    · cases h
    · next body after hb =>
      cases h
      exact .native hg hd hb
  | clause hg hb hd hq => exact hclause (.clause hg hb hd hq) rfl
  | @bound gap gap₁ ds hg h₁ =>
    refine hclause (.bound_gap gap ds hg h₁) ?_
    rw [Option.elim_some, Binding.source_append, gap_append_dropGap]

theorem read_eq_ok_iff {prev : Option Char} {c : Char} {cs rest : List Char} {i : Item} :
    read prev c cs = .ok (i, rest) ↔ Read prev c cs i rest := by
  constructor
  · intro h
    unfold read at h
    split at h
    · next ho => rw [ho]; exact read_of_readOpening h
    · split at h
      · next hc => cases h; rw [hc]; exact .closing cs
      · next ho hc =>
        split at h
        · cases h
        · next p after hp => cases h; exact .piece ho hc hp
  · intro h
    cases h with
    | piece ho hc hp => rw [read, if_neg ho, if_neg hc, hp]
    | closing => rfl
    | native hg hd hb => rw [read, if_pos rfl, readOpening_native hg hd, hb]
    | @opening _ tail _ _ ho ht =>
      have hrest := List.append_cancel_left (ht.symm.trans (marker_append_drop tail).symm)
      rw [read, if_pos rfl, readOpening_opened ho, hrest]

theorem inert_of_mem_head {gap tail : List Char} {binding : Option Binding}
    (h : Opened gap binding tail) {c : Char}
    (hc : c ∈ binding.elim [] Binding.source ++ marker tail) : Inert c := by
  rcases List.mem_append.1 hc with hs | hm
  · cases h with
    | clause => cases hs
    | bound hg h₁ h₂ ht =>
      simp only [Option.elim_some, Binding.source, List.cons_append, List.mem_cons,
        List.mem_append] at hs
      rcases hs with rfl | hs | rfl | hs
      · decide
      · exact inert_of_isBlank (h₁ c hs)
      · decide
      · exact inert_of_isBlank (h₂ c hs)
  · exact inert_of_mem_marker hm

/-- Nothing but blanks is left of the opening of a clause. -/
theorem Opened.isGap_output {gap tail : List Char} {binding : Option Binding}
    (h : Opened gap binding tail) (marker : List Char) :
    IsGap (opening gap binding marker).output := by
  have hspace : isBlank ' ' = true := by decide
  have hbinding : IsGap (binding.elim [] Binding.output) := by
    intro c hc
    cases h with
    | clause => cases hc
    | bound hg h₁ h₂ ht =>
      simp only [Option.elim_some, Binding.output, List.cons_append, List.mem_cons,
        List.mem_append] at hc
      rcases hc with rfl | hc | rfl | hc
      · exact hspace
      · exact h₁ c hc
      · exact hspace
      · exact h₂ c hc
  intro c hc
  simp only [output, List.cons_append, List.mem_cons, List.mem_append] at hc
  rcases hc with rfl | (hc | hc) | hc
  · exact hspace
  · exact h.isGap c hc
  · exact hbinding c hc
  · rw [List.eq_of_mem_replicate hc]
    exact hspace

end Item

end EscapeClause
