import EscapeClause.Proofs.Segment
import EscapeClause.Proofs.Tokens

/-! The bytes of a statement that escape processing blanks. The grammar tells which bytes
are given up: the braces of clauses, the two marks of a binding and the letters of a
marking word. Main statement: these are the bytes in the blank segments of the items. -/

namespace EscapeClause

open Text Grammar

def Binding.segments (b : Binding) : List Segment :=
  [⟨['?'], true⟩, ⟨b.gap, false⟩, ⟨['='], true⟩, ⟨b.gapAfter, false⟩]

def Item.segments : Item → List Segment
  | opening gap binding marker =>
    ⟨['{'], true⟩ :: ⟨gap, false⟩ :: binding.elim [] Binding.segments ++ [⟨marker, true⟩]
  | closing => [⟨['}'], true⟩]
  | item => [⟨item.source, false⟩]

namespace Item

theorem flatMap_text_segments (i : Item) : i.segments.flatMap Segment.text = i.source := by
  cases i with
  | opening gap binding marker =>
    cases binding <;> simp [segments, source, Binding.segments, Binding.source]
  | _ => simp [segments, source]

theorem flatMap_output_segments (i : Item) : i.segments.flatMap Segment.output = i.output := by
  cases i with
  | opening gap binding marker =>
    cases binding <;>
      simp [segments, output, Binding.segments, Binding.output, Segment.output]
  | closing => rfl
  | _ => simp [segments, output, Segment.output]

end Item

namespace Grammar

/-- `t.Gives rest k`: the token gives up its byte `k`, counted from its start, in front of
`rest`. The marks of a binding and a marking word stand behind an opening in `rest`. -/
inductive Token.Gives (rest : List Char) : Token → Nat → Prop where
  | closing : Gives rest closing 0
  | opening (gap : List Char) : Gives rest (opening gap) 0
  | question {gap gap₁ bound : List Char} (hr : rest = '?' :: gap₁ ++ '=' :: bound)
      (h₁ : IsGap gap₁) : Gives rest (opening gap) (byteLength ('{' :: gap))
  | equals {gap gap₁ bound : List Char} (hr : rest = '?' :: gap₁ ++ '=' :: bound)
      (h₁ : IsGap gap₁) : Gives rest (opening gap) (byteLength ('{' :: gap ++ '?' :: gap₁))
  | word {gap : List Char} {k : Nat} (hm : Keyword.Marks (word rest))
      (hk : k < byteLength (word rest)) :
      Gives rest (opening gap) (byteLength ('{' :: gap) + k)
  | boundWord {gap gap₁ gap₂ tail : List Char} {k : Nat}
      (hr : rest = '?' :: gap₁ ++ '=' :: (gap₂ ++ tail)) (h₁ : IsGap gap₁) (h₂ : IsGap gap₂)
      (hm : Keyword.Marks (word tail)) (hk : k < byteLength (word tail)) :
      Gives rest (opening gap) (byteLength ('{' :: gap ++ '?' :: gap₁ ++ '=' :: gap₂) + k)

/-- The byte `i` of the text of the tokens is given up by one of them. -/
def GivesAt (ts : List Token) (i : Nat) : Prop :=
  ∃ us t vs k, ts = us ++ t :: vs ∧ t.Gives (text vs) k ∧ i = byteLength (text us) + k

/-- The bytes of a statement that are blanked: those given up by a token of its reading. -/
def Blanked (cs : List Char) (i : Nat) : Prop := ∃ ts, Reads [] cs ts [] ∧ GivesAt ts i

theorem not_marks_word_question (cs : List Char) : ¬ Keyword.Marks (word ('?' :: cs)) := by
  intro hm
  have hb : isBlank '?' = false := by decide
  have hmem : '?' ∈ word ('?' :: cs) := by simp [word, hb]
  have := Keyword.toLower_mem_of_marks hm hmem
  revert this
  decide

theorem isBlank_head?_of_marks {cs : List Char} (hm : Keyword.Marks (word cs)) :
    ∀ c ∈ cs.head?, isBlank c = false := by
  intro c hc
  obtain ⟨tail, rfl⟩ := List.head?_eq_some_iff.1 hc
  cases hb : isBlank c with
  | false => rfl
  | true =>
    have hw : word (c :: tail) = [] := by simp [word, hb]
    rw [hw] at hm
    revert hm
    decide

theorem lt_byteLength_marker_iff {tail : List Char} {k : Nat} :
    k < byteLength (Item.marker tail) ↔ Keyword.Marks (word tail) ∧ k < byteLength (word tail) := by
  rw [Item.marker]
  split
  · next hm => simp [hm]
  · next hm => simp [hm]

/-- The marks of a binding stand in one place only. -/
theorem binding_inj {g g' cs cs' : List Char} (hg : IsGap g) (hg' : IsGap g')
    (h : '?' :: g ++ '=' :: cs = '?' :: g' ++ '=' :: cs') : g = g' ∧ cs = cs' := by
  have hequals (ds : List Char) : ∀ c ∈ ('=' :: ds).head?, isBlank c = false :=
    head?_of_not_isBlank (by decide)
  obtain ⟨hgap, hrest⟩ :=
    gap_append_inj hg hg' (hequals cs) (hequals cs') (List.cons.inj h).2
  exact ⟨hgap, (List.cons.inj hrest).2⟩

section Opening

variable {gap : List Char} {i : Nat}

/-- Of a clause without a binding the brace is blanked and the marker behind its gap. -/
theorem blankAt_clause_iff {c : Char} {cs : List Char} (hq : c ≠ '?') :
    Segment.BlankAt (Item.opening gap none (Item.marker (c :: cs))).segments i ↔
      (Token.opening gap).Gives (c :: cs) i := by
  have hbrace : '{'.utf8Size = 1 := by decide
  have hseg : Segment.BlankAt (Item.opening gap none (Item.marker (c :: cs))).segments i ↔
      i = 0 ∨ byteLength ('{' :: gap) ≤ i ∧
        i - byteLength ('{' :: gap) < byteLength (Item.marker (c :: cs)) := by
    simp only [Item.segments, Option.elim_none, Segment.BlankAt, List.cons_append,
      List.nil_append, byteLength_cons, byteLength_nil, hbrace]
    simp
    omega
  rw [hseg, lt_byteLength_marker_iff]
  constructor
  · rintro (rfl | ⟨hle, hm, hk⟩)
    · exact .opening gap
    · rw [← Nat.add_sub_cancel' hle]
      exact .word hm hk
  · intro h
    cases h with
    | opening => exact .inl rfl
    | question hr => exact absurd (List.cons.inj hr).1 hq
    | equals hr => exact absurd (List.cons.inj hr).1 hq
    | word hm hk => exact .inr ⟨by omega, hm, by rwa [Nat.add_sub_cancel_left]⟩
    | boundWord hr => exact absurd (List.cons.inj hr).1 hq

/-- Of a clause with a binding the marks are blanked too, and the marker behind them. -/
theorem blankAt_bound_iff {b : Binding} {tail : List Char} (h₁ : IsGap b.gap)
    (h₂ : IsGap b.gapAfter) (ht : ∀ c ∈ tail.head?, isBlank c = false) :
    Segment.BlankAt (Item.opening gap (some b) (Item.marker tail)).segments i ↔
      (Token.opening gap).Gives ('?' :: (b.gap ++ '=' :: (b.gapAfter ++ tail))) i := by
  have hbrace : '{'.utf8Size = 1 := by decide
  have hquestion : '?'.utf8Size = 1 := by decide
  have hequals : '='.utf8Size = 1 := by decide
  have hseg : Segment.BlankAt (Item.opening gap (some b) (Item.marker tail)).segments i ↔
      i = 0 ∨ i = byteLength ('{' :: gap) ∨ i = byteLength ('{' :: gap ++ '?' :: b.gap) ∨
        byteLength ('{' :: gap ++ '?' :: b.gap ++ '=' :: b.gapAfter) ≤ i ∧
          i - byteLength ('{' :: gap ++ '?' :: b.gap ++ '=' :: b.gapAfter) <
            byteLength (Item.marker tail) := by
    simp only [Item.segments, Binding.segments, Option.elim_some, Segment.BlankAt,
      List.cons_append, List.nil_append, byteLength_cons, byteLength_append, byteLength_nil,
      hbrace, hquestion, hequals]
    simp
    omega
  rw [hseg, lt_byteLength_marker_iff]
  constructor
  · rintro (rfl | rfl | rfl | ⟨hle, hm, hk⟩)
    · exact .opening gap
    · exact .question rfl h₁
    · exact .equals rfl h₁
    · rw [← Nat.add_sub_cancel' hle]
      exact .boundWord rfl h₁ h₂ hm hk
  · intro h
    cases h with
    | opening => exact .inl rfl
    | question => exact .inr (.inl rfl)
    | equals hr hgap =>
      obtain ⟨rfl, -⟩ := binding_inj h₁ hgap hr
      exact .inr (.inr (.inl rfl))
    | word hm => exact absurd hm (not_marks_word_question _)
    | boundWord hr hgap hgap' hm hk =>
      obtain ⟨rfl, hbound⟩ := binding_inj h₁ hgap hr
      obtain ⟨rfl, rfl⟩ := gap_append_inj h₂ hgap' ht (isBlank_head?_of_marks hm) hbound
      exact .inr (.inr (.inr ⟨by omega, hm, by rwa [Nat.add_sub_cancel_left]⟩))

/-- The segments of an opened clause are blank where its opening gives bytes up. -/
theorem blankAt_opening_iff {tail : List Char} {binding : Option Binding}
    (ho : Item.Opened gap binding tail) :
    Segment.BlankAt (Item.opening gap binding (Item.marker tail)).segments i ↔
      (Token.opening gap).Gives (binding.elim [] Binding.source ++ tail) i := by
  cases ho with
  | clause hg hb hd hq => exact blankAt_clause_iff hq
  | @bound _ b hg h₁ h₂ ht =>
    rw [blankAt_bound_iff h₁ h₂ ht, Option.elim_some, Binding.source_append]

end Opening

theorem givesAt_cons_iff {t : Token} {ts : List Token} {i : Nat} :
    GivesAt (t :: ts) i ↔
      t.Gives (text ts) i ∨ byteLength t.text ≤ i ∧ GivesAt ts (i - byteLength t.text) := by
  constructor
  · rintro ⟨us, u, vs, k, h, hu, rfl⟩
    cases us with
    | nil =>
      cases h
      rw [text_nil, byteLength_nil, Nat.zero_add]
      exact .inl hu
    | cons v us =>
      cases h
      rw [text_cons, byteLength_append]
      exact .inr ⟨by omega, us, u, vs, k, rfl, hu, by omega⟩
  · rintro (h | ⟨hle, us, u, vs, k, rfl, hu, hi⟩)
    · exact ⟨[], t, ts, i, rfl, h, (Nat.zero_add i).symm⟩
    · exact ⟨t :: us, u, vs, k, rfl, hu, by rw [text_cons, byteLength_append]; omega⟩

theorem givesAt_plain_iff {xs : List Char} {ts : List Token} {i : Nat} :
    GivesAt (xs.map .plain ++ ts) i ↔ byteLength xs ≤ i ∧ GivesAt ts (i - byteLength xs) := by
  induction xs generalizing i with
  | nil => simp
  | cons x xs ih =>
    have hx : ¬ (Token.plain x).Gives (text (xs.map .plain ++ ts)) i := by
      intro h
      cases h
    have htext : byteLength (Token.plain x).text = x.utf8Size := rfl
    rw [List.map_cons, List.cons_append, givesAt_cons_iff, ih, htext, byteLength_cons,
      Nat.sub_add_eq]
    constructor
    · rintro (h | ⟨h₁, h₂, h⟩)
      · exact absurd h hx
      · exact ⟨by omega, h⟩
    · rintro ⟨h₁, h⟩
      exact .inr ⟨by omega, by omega, h⟩

section Item

variable {ts : List Token} {k : Nat}

theorem givesAt_kept_iff {t : Token} {s : Segment} (ht : ∀ k, ¬ t.Gives (text ts) k)
    (hs : s.blank = false) (htext : t.text = s.text) :
    GivesAt (t :: ts) k ↔ Segment.BlankAt [s] k ∨
      byteLength s.text ≤ k ∧ GivesAt ts (k - byteLength s.text) := by
  have hno : ¬ Segment.BlankAt [s] k := by simp [Segment.BlankAt, hs]
  rw [givesAt_cons_iff, htext]
  exact or_congr_left ⟨fun h => absurd h (ht k), fun h => absurd h hno⟩

theorem givesAt_closing_iff :
    GivesAt (.closing :: ts) k ↔ Segment.BlankAt Item.closing.segments k ∨
      byteLength Item.closing.source ≤ k ∧ GivesAt ts (k - byteLength Item.closing.source) := by
  have hgives : Token.closing.Gives (text ts) k ↔ k = 0 :=
    ⟨fun h => by cases h; rfl, fun h => h ▸ .closing⟩
  have hblank : Segment.BlankAt Item.closing.segments k ↔ k = 0 := by
    have hbrace : '}'.utf8Size = 1 := by decide
    simp [Segment.BlankAt, Item.segments, hbrace]
  rw [givesAt_cons_iff, hgives, hblank]
  rfl

theorem givesAt_opening_iff {gap tail : List Char} {binding : Option Binding}
    (ho : Item.Opened gap binding tail) (ht : tail = Item.marker tail ++ text ts) :
    GivesAt ((Item.opening gap binding (Item.marker tail)).tokens ++ ts) k ↔
      Segment.BlankAt (Item.opening gap binding (Item.marker tail)).segments k ∨
        byteLength (Item.opening gap binding (Item.marker tail)).source ≤ k ∧
          GivesAt ts (k - byteLength (Item.opening gap binding (Item.marker tail)).source) := by
  have htext : text ((binding.elim [] Binding.source ++ Item.marker tail).map .plain ++ ts) =
      binding.elim [] Binding.source ++ tail := by
    rw [text_append, text_map_plain, List.append_assoc, ← ht]
  have hlen : byteLength (Item.opening gap binding (Item.marker tail)).source =
      byteLength (Token.opening gap).text +
        byteLength (binding.elim [] Binding.source ++ Item.marker tail) := by
    rw [Item.source, List.append_assoc, byteLength_append]
    rfl
  rw [Item.tokens, List.cons_append, givesAt_cons_iff, givesAt_plain_iff, htext,
    blankAt_opening_iff ho, hlen, Nat.sub_add_eq]
  constructor
  · rintro (h | ⟨h₁, h₂, h⟩)
    · exact .inl h
    · exact .inr ⟨by omega, h⟩
  · rintro (h | ⟨h₁, h⟩)
    · exact .inl h
    · exact .inr ⟨by omega, by omega, h⟩

/-- The bytes that the tokens of an item give up are those in its blank segments. -/
theorem givesAt_tokens_iff {prev : Option Char} {c : Char} {cs : List Char} {i : Item}
    (h : Item.Read prev c cs i (text ts)) :
    GivesAt (i.tokens ++ ts) k ↔ Segment.BlankAt i.segments k ∨
      byteLength i.source ≤ k ∧ GivesAt ts (k - byteLength i.source) := by
  cases h with
  | @piece _ _ _ p _ _ _ =>
    cases p with
    | passed cs => exact givesAt_kept_iff (s := ⟨cs, false⟩) (by rintro _ ⟨⟩) rfl rfl
    | plain c => exact givesAt_kept_iff (s := ⟨[c], false⟩) (by rintro _ ⟨⟩) rfl rfl
  | closing => exact givesAt_closing_iff
  | @native gap _ _ _ body _ _ _ =>
    exact givesAt_kept_iff (s := ⟨(Item.native gap body).source, false⟩) (by rintro _ ⟨⟩) rfl rfl
  | opening ho ht => exact givesAt_opening_iff ho ht

end Item

/-- The bytes that the tokens of a reading give up are those in the blank segments. -/
theorem givesAt_iff {prev : Option Char} {cs : List Char} {is : List Item}
    (h : Reading.Complete prev cs is) {k : Nat} :
    GivesAt (is.flatMap Item.tokens) k ↔ Segment.BlankAt (is.flatMap Item.segments) k := by
  induction h generalizing k with
  | nil =>
    constructor
    · rintro ⟨us, t, vs, k, h, -⟩
      exact absurd h.symm (List.append_ne_nil_of_right_ne_nil us (List.cons_ne_nil t vs))
    · exact False.elim
  | @cons _ _ _ rest i is hi hr ih =>
    have hrest : text (is.flatMap Item.tokens) = rest := by
      rw [text_flatMap_tokens, hr.flatMap_source]
    have hread := Item.read_eq_ok_iff.1 hi
    rw [← hrest] at hread
    rw [List.flatMap_cons, List.flatMap_cons, givesAt_tokens_iff hread,
      Segment.blankAt_append_iff, Item.flatMap_text_segments, ih]

theorem blanked_iff {cs : List Char} {is : List Item} (h : Reading.Complete none cs is)
    {k : Nat} : Blanked cs k ↔ Segment.BlankAt (is.flatMap Item.segments) k := by
  rw [← givesAt_iff h]
  constructor
  · rintro ⟨ts, hts, hk⟩
    rwa [← @eq_tokens_of_reads [] cs ts is h hts]
  · exact fun hk => ⟨_, @reads_of_complete [] cs is h, hk⟩

end Grammar

end EscapeClause
