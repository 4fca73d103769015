import EscapeClause.Proofs.Blanked
import EscapeClause.Proofs.NativeText

/-! What becomes of a statement. A native text has a space at each byte that is blanked and
the same byte as the statement everywhere else. What comes through as it is are literals,
comments and native literals, and the braces that are left stand inside of them. -/

namespace EscapeClause

open Text Grammar

theorem Item.narrow_of_read {prev : Option Char} {c : Char} {cs rest : List Char} {i : Item}
    (h : Item.Read prev c cs i rest) : ∀ s ∈ i.segments, s.Narrow := by
  cases h with
  | piece => exact List.forall_mem_singleton.2 (.kept _)
  | closing => exact List.forall_mem_singleton.2 (.mark (by decide))
  | native => exact List.forall_mem_singleton.2 (.kept _)
  | @opening gap tail _ binding ho ht =>
    have hmarker : Segment.Narrow ⟨marker tail, true⟩ := by
      intro _ y hy
      obtain ⟨hm, hw⟩ := marks_of_mem_marker hy
      exact utf8Size_of_mem_marks hm hw
    have hbrace : Segment.Narrow ⟨['{'], true⟩ := .mark (by decide)
    have hquestion : Segment.Narrow ⟨['?'], true⟩ := .mark (by decide)
    have hequals : Segment.Narrow ⟨['='], true⟩ := .mark (by decide)
    cases binding with
    | none =>
      simp only [segments, Option.elim_none, List.cons_append, List.nil_append,
        List.forall_mem_cons]
      exact ⟨hbrace, .kept gap, hmarker, List.forall_mem_nil _⟩
    | some b =>
      simp only [segments, Binding.segments, Option.elim_some, List.cons_append,
        List.nil_append, List.forall_mem_cons]
      exact ⟨hbrace, .kept gap, hquestion, .kept b.gap, hequals, .kept b.gapAfter, hmarker,
        List.forall_mem_nil _⟩

namespace Reading

theorem Complete.narrow {prev : Option Char} {cs : List Char} {is : List Item}
    (h : Complete prev cs is) : ∀ s ∈ is.flatMap Item.segments, s.Narrow := by
  intro s hs
  obtain ⟨i, hi, his⟩ := List.mem_flatMap.1 hs
  obtain ⟨is₁, is₂, rfl⟩ := List.append_of_mem hi
  obtain ⟨c, tail, -, hread⟩ := h.read_at
  exact Item.narrow_of_read hread s his

end Reading

theorem Item.byteLength_output {prev : Option Char} {c : Char} {cs rest : List Char} {i : Item}
    (h : Item.Read prev c cs i rest) : byteLength i.output = byteLength i.source := by
  rw [← flatMap_output_segments, ← flatMap_text_segments]
  exact Segment.byteLength_flatMap_output (narrow_of_read h)

theorem Reading.Passes.byteLength_output {prev : Option Char} {cs rest : List Char}
    {is : List Item} (h : Passes prev cs is rest) :
    byteLength (is.flatMap Item.output) = byteLength (is.flatMap Item.source) := by
  induction h with
  | nil => rfl
  | cons hi _ ih =>
    rw [List.flatMap_cons, List.flatMap_cons, byteLength_append, byteLength_append,
      Item.byteLength_output (Item.read_eq_ok_iff.1 hi), ih]

/-- Where a concatenation is split at an element, one of its parts is. -/
theorem exists_of_flatMap_eq_append_cons {α β : Type} {f : α → List β} {xs : List α}
    {before after : List β} {b : β} (h : xs.flatMap f = before ++ b :: after) :
    ∃ xs₁ x xs₂ before' after', xs = xs₁ ++ x :: xs₂ ∧ f x = before' ++ b :: after' ∧
      before = xs₁.flatMap f ++ before' ∧ after = after' ++ xs₂.flatMap f := by
  induction xs generalizing before with
  | nil => exact absurd h.symm (List.append_ne_nil_of_right_ne_nil before (List.cons_ne_nil _ _))
  | cons x xs ih =>
    rw [List.flatMap_cons] at h
    rcases List.append_eq_append_iff.1 h with ⟨mid, rfl, hmid⟩ | ⟨mid, hx, hmid⟩
    · obtain ⟨xs₁, y, xs₂, before', after', rfl, hy, rfl, rfl⟩ := ih hmid
      exact ⟨x :: xs₁, y, xs₂, before', after', rfl, hy, by simp, rfl⟩
    · cases mid with
      | nil =>
        obtain ⟨xs₁, y, xs₂, before', after', rfl, hy, hnil, rfl⟩ := @ih [] hmid.symm
        rw [List.append_nil] at hx
        refine ⟨x :: xs₁, y, xs₂, before', after', rfl, hy, ?_, rfl⟩
        rw [List.flatMap_cons, List.append_assoc, ← hnil, List.append_nil, hx]
      | cons m mid =>
        obtain ⟨rfl, rfl⟩ := List.cons.inj hmid
        exact ⟨[], x, xs, before, mid, rfl, hx, rfl, rfl⟩

namespace Grammar

/-- Literals, comments and native literals. A stretch is one of them unless it is a single
character that starts nothing. -/
def Token.Protects (before rest : List Char) : Token → Prop
  | stretch cs => (Literal.opening? before.getLast? (cs ++ rest)).isSome
  | native _ _ => True
  | _ => False

theorem flatMap_output_segments (is : List Item) :
    (is.flatMap Item.segments).flatMap Segment.output = is.flatMap Item.output := by
  rw [List.flatMap_assoc]
  simp only [Item.flatMap_output_segments]

theorem flatMap_text_segments (is : List Item) :
    (is.flatMap Item.segments).flatMap Segment.text = is.flatMap Item.source := by
  rw [List.flatMap_assoc]
  simp only [Item.flatMap_text_segments]

theorem byteLength_flatMap_output {prev : Option Char} {cs : List Char} {is is' : List Item}
    (h : Reading.Complete prev cs (is ++ is')) :
    byteLength (is.flatMap Item.output) = byteLength (is.flatMap Item.source) := by
  rw [← flatMap_output_segments, ← flatMap_text_segments]
  refine Segment.byteLength_flatMap_output fun s hs => h.narrow s ?_
  rw [List.flatMap_append]
  exact List.mem_append_left _ hs

/-- A stretch or native literal is the only token of its item, which comes through. -/
theorem output_eq_of_tokens {i : Item} {us vs : List Token} {t : Token}
    (hi : i.tokens = us ++ t :: vs)
    (ht : (∃ text, t = .stretch text) ∨ ∃ gap body, t = .native gap body) :
    us = [] ∧ i.output = t.text := by
  have hsingle {u : Token} (hu : [u] = us ++ t :: vs) : us = [] ∧ u = t := by
    cases us with
    | nil => exact ⟨rfl, (List.cons.inj hu).1⟩
    | cons v us =>
      exact absurd (List.cons.inj hu).2.symm
        (List.append_ne_nil_of_right_ne_nil us (List.cons_ne_nil _ _))
  cases i with
  | piece p =>
    cases p with
    | passed text => obtain ⟨hus, rfl⟩ := hsingle hi; exact ⟨hus, rfl⟩
    | plain c => obtain ⟨hus, rfl⟩ := hsingle hi; exact ⟨hus, rfl⟩
  | native gap body => obtain ⟨hus, rfl⟩ := hsingle hi; exact ⟨hus, rfl⟩
  | opening gap binding marker =>
    have hmem : t ∈ (Item.opening gap binding marker).tokens := by rw [hi]; simp
    rcases List.mem_cons.1 hmem with rfl | hmem
    · rcases ht with ⟨_, h⟩ | ⟨_, _, h⟩ <;> cases h
    · obtain ⟨c, -, rfl⟩ := List.mem_map.1 hmem
      rcases ht with ⟨_, h⟩ | ⟨_, _, h⟩ <;> cases h
  | closing =>
    obtain ⟨-, rfl⟩ := hsingle hi
    rcases ht with ⟨_, h⟩ | ⟨_, _, h⟩ <;> cases h

/-- A stretch or native literal of a statement stands at the same place in the output. -/
theorem output_eq_of_kept {cs : List Char} {is : List Item} {us vs : List Token} {t : Token}
    (h : Reading.Complete none cs is) (hts : Reads [] cs (us ++ t :: vs) [])
    (ht : (∃ text, t = .stretch text) ∨ ∃ gap body, t = .native gap body) :
    ∃ before after, is.flatMap Item.output = before ++ t.text ++ after ∧
      byteLength before = byteLength (text us) := by
  obtain ⟨is₁, i, is₂, before', after', rfl, hi, rfl, -⟩ :=
    exists_of_flatMap_eq_append_cons (@eq_tokens_of_reads [] cs _ is h hts).symm
  obtain ⟨rfl, hout⟩ := output_eq_of_tokens hi ht
  refine ⟨is₁.flatMap Item.output, is₂.flatMap Item.output, ?_, ?_⟩
  · rw [List.flatMap_append, List.flatMap_cons, hout, List.append_assoc]
  · rw [byteLength_flatMap_output h, List.append_nil, text_flatMap_tokens]

/-- A piece with a brace in it is a literal or comment. -/
theorem protects_of_mem_text {before : List Char} {c d : Char} {cs rest : List Char} {p : Piece}
    (hp : Piece.read before.getLast? d cs = .ok (p, rest)) (hd : d ≠ '{' ∧ d ≠ '}')
    (hmem : c ∈ p.text) (hc : c = '{' ∨ c = '}') :
    ∃ t, (Item.piece p).tokens = [t] ∧ p.text = t.text ∧ t.Protects before rest := by
  have hne : c ≠ d := by
    rintro rfl
    exact hc.elim hd.1 hd.2
  have hcs := Piece.append_of_read hp
  unfold Piece.read at hp
  split at hp
  · split at hp
    · next text after hs =>
      cases hp
      refine ⟨.stretch text, rfl, rfl, ?_⟩
      rw [Token.Protects, ← show d :: cs = text ++ rest from hcs]
      cases ho : Literal.opening? before.getLast? (d :: cs) with
      | some r => rfl
      | none =>
        rw [Literal.skip, ho] at hs
        cases hs
        rw [List.take_succ_cons, List.take_zero] at hmem
        exact absurd (List.mem_singleton.1 hmem) hne
    · cases hp
  · cases hp
    exact absurd (List.mem_singleton.1 hmem) hne

/-- An item with a brace left in its output is a literal, a comment or a native literal. -/
theorem protects_of_mem_output {before : List Char} {c d : Char} {cs rest : List Char} {i : Item}
    (hi : Item.Read before.getLast? d cs i rest) (hmem : c ∈ i.output) (hc : c = '{' ∨ c = '}') :
    ∃ t, i.tokens = [t] ∧ i.output = t.text ∧ t.Protects before rest := by
  have hblank (hg : IsGap i.output) : False := by
    have hb := hg c hmem
    rcases hc with rfl | rfl
    · exact absurd hb (by decide)
    · exact absurd hb (by decide)
  cases hi with
  | piece ho hcl hp => exact protects_of_mem_text hp ⟨ho, hcl⟩ hmem hc
  | native => exact ⟨_, rfl, rfl, trivial⟩
  | closing => exact absurd (List.forall_mem_singleton.2 (by decide)) hblank
  | opening ho ht => exact absurd (ho.isGap_output _) hblank

/-- A brace in the output belongs to a literal, a comment or a native literal. -/
theorem protects_of_brace {cs : List Char} {is : List Item} (h : Reading.Complete none cs is)
    {before after : List Char} {c : Char}
    (hout : is.flatMap Item.output = before ++ c :: after) (hc : c = '{' ∨ c = '}') :
    ∃ us t vs, Reads [] cs (us ++ t :: vs) [] ∧ t.Protects (text us) (text vs) ∧
      byteLength (text us) ≤ byteLength before ∧
      byteLength before < byteLength (text us) + byteLength t.text := by
  obtain ⟨is₁, i, is₂, before', after', rfl, hi, rfl, -⟩ := exists_of_flatMap_eq_append_cons hout
  obtain ⟨d, tail, -, hread⟩ := h.read_at
  rw [Option.or_none] at hread
  obtain ⟨t, ht, htext, hp⟩ := protects_of_mem_output hread (by rw [hi]; simp) hc
  have hlen := congrArg byteLength (htext.symm.trans hi)
  have hpos := c.utf8Size_pos
  rw [byteLength_append, byteLength_cons] at hlen
  refine ⟨is₁.flatMap Item.tokens, t, is₂.flatMap Item.tokens, ?_, ?_, ?_, ?_⟩
  · exact reads_iff.2 ⟨_, h, by rw [List.flatMap_append, List.flatMap_cons, ht]; rfl⟩
  · rwa [text_flatMap_tokens, text_flatMap_tokens]
  · rw [text_flatMap_tokens, byteLength_append, byteLength_flatMap_output h]
    omega
  · rw [text_flatMap_tokens, byteLength_append, byteLength_flatMap_output h]
    omega

end Grammar

/-- The native text has the length of the statement and its character boundaries. Its bytes
are spaces where the statement is blanked and the same everywhere else, so that stretches
and native literals come through, and the braces that are left stand inside of them. -/
theorem nativeText_blanks_exactly {sql : String} {t : NativeText} (hb : '{' ∈ sql.toList)
    (h : nativeText sql true = .ok t) :
    t.text.toUTF8.size = sql.toUTF8.size ∧
      (∀ i, Blanked sql.toList i → t.text.toUTF8.data[i]? = some 0x20) ∧
      (∀ i, ¬ Blanked sql.toList i → t.text.toUTF8.data[i]? = sql.toUTF8.data[i]?) ∧
      (∀ p, IsBoundary t.text.toList p ↔ IsBoundary sql.toList p) ∧
      (∀ us u vs, Reads [] sql.toList (us ++ u :: vs) [] →
        ((∃ cs, u = .stretch cs) ∨ ∃ gap body, u = .native gap body) →
        ∃ before after, t.text.toList = before ++ u.text ++ after ∧
          byteLength before = byteLength (text us)) ∧
      ∀ before c after, t.text.toList = before ++ c :: after → c = '{' ∨ c = '}' →
        ∃ us u vs, Reads [] sql.toList (us ++ u :: vs) [] ∧ u.Protects (text us) (text vs) ∧
          byteLength (text us) ≤ byteLength before ∧
          byteLength before < byteLength (text us) + byteLength u.text := by
  obtain ⟨is, hr, -, -, hout⟩ := NativeText.exists_reading hb h
  have hsource : sql.toList = (is.flatMap Item.segments).flatMap Segment.text := by
    rw [flatMap_text_segments, hr.flatMap_source]
  have hblank : t.text.toList = (is.flatMap Item.segments).flatMap Segment.output := by
    rw [flatMap_output_segments, hout]
  have hsize (s : String) : s.toUTF8.size = byteLength s.toList := by
    rw [← length_bytes, ← toList_toUTF8, Array.length_toList]
    rfl
  have hget (s : String) (i : Nat) : s.toUTF8.data[i]? = (bytes s.toList)[i]? := by
    rw [← toList_toUTF8, Array.getElem?_toList]
  refine ⟨?_, fun i hi => ?_, fun i hi => ?_, fun p => ?_, fun us u vs hts hu => ?_,
    fun before c after hc hbrace => ?_⟩
  · rw [hsize, hsize, hblank, hsource, Segment.byteLength_flatMap_output hr.narrow]
  · rw [hget, hblank]
    exact (Segment.getElem?_bytes_output hr.narrow i).1 ((blanked_iff hr).1 hi)
  · rw [hget, hget, hblank, hsource]
    exact (Segment.getElem?_bytes_output hr.narrow i).2 (mt (blanked_iff hr).2 hi)
  · rw [hblank, hsource, Segment.isBoundary_flatMap_output hr.narrow]
  · rw [hout]
    exact output_eq_of_kept hr hts hu
  · rw [hout] at hc
    exact protects_of_brace hr hc hbrace

theorem nativeText_blanks_bound_call :
    '{' ∈ "é {? = fn f({1}, $${}$$)}".toList ∧
      nativeText "é {? = fn f({1}, $${}$$)}" true = .ok (.built "é         f({1}, $${}$$) ") ∧
      ∀ i, Blanked "é {? = fn f({1}, $${}$$)}".toList i →
        "é         f({1}, $${}$$) ".toUTF8.data[i]? = some 0x20 :=
  have h : nativeText "é {? = fn f({1}, $${}$$)}" true =
      .ok (.built "é         f({1}, $${}$$) ") := by
    decide +kernel
  ⟨by decide, h, (nativeText_blanks_exactly (by decide) h).2.1⟩

end EscapeClause
