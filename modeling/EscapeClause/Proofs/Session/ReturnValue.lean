import EscapeClause.Proofs.Blanking
import EscapeClause.Proofs.Session.Binding
import EscapeClause.Proofs.Session.History

/-! The return value that a prepared statement is said to have. It is told from the front of the
submitted text, where no equals sign is looked for, while the reading of the statement knows a
binding by its equals sign. Main statement: where a statement is prepared the two agree, and the
three marks of the binding are blanks in the text that is prepared. -/

namespace EscapeClause

open Text

/-- The text is the binding of a return value, whose opening brace, question mark and equals sign
stand behind gaps, and `rest` behind it. -/
structure OpensBound (cs lead gap gap₁ rest : List Char) : Prop where
  eq : cs = lead ++ '{' :: (gap ++ '?' :: (gap₁ ++ '=' :: rest))
  isGap_lead : IsGap lead
  isGap : IsGap gap
  isGap₁ : IsGap gap₁

section Reading

variable {cs lead gap gap₁ rest : List Char} {is : List Item}

theorem OpensBound.bindsReturnValue (h : OpensBound cs lead gap gap₁ rest) :
    BindsReturnValue cs :=
  ⟨lead, gap, _, h.isGap_lead, h.isGap, h.eq⟩

/-- Blanks at the front of a statement are read one by one. -/
theorem exists_complete_of_isGap {tail : List Char} (hg : IsGap lead)
    (hr : Reading.Complete none (lead ++ tail) is) :
    ∃ prev js, is = lead.map (.piece ∘ .plain) ++ js ∧ Reading.Complete prev tail js :=
  (Reading.Passes.inert (fun c hc => inert_of_isBlank (hg c hc)) none tail).exists_append hr

/-- A statement that can be read has the equals sign that its question mark calls for. -/
theorem BindsReturnValue.exists_opensBound (h : BindsReturnValue cs)
    (hr : Reading.Complete none cs is) :
    ∃ lead gap gap₁ rest, OpensBound cs lead gap gap₁ rest := by
  obtain ⟨lead, gap, bound, hlead, hgap, rfl⟩ := h
  obtain ⟨prev, js, -, hjs⟩ := exists_complete_of_isGap hlead hr
  cases hjs with
  | cons hi _ =>
    have hbound := gap_append_dropGap bound
    by_cases he : (dropGap bound).head? = some '='
    · obtain ⟨rest, hrest⟩ := List.head?_eq_some_iff.1 he
      rw [hrest] at hbound
      exact ⟨lead, gap, Text.gap bound, rest, by rw [hbound], hlead, hgap, isGap_gap bound⟩
    · have hc : ∀ c ∈ (dropGap bound).head?, isBlank c = false ∧ c ≠ '=' := by
        intro c hc
        refine ⟨isBlank_of_head?_dropGap c hc, ?_⟩
        rintro rfl
        exact he hc
      rw [Item.read, if_pos rfl, ← hbound, Item.readOpening_unbound hgap (isGap_gap bound) hc] at hi
      cases hi

/-- The reading takes just the characters up to the equals sign as a binding, with the gap
behind it. -/
theorem OpensBound.exists_items (h : OpensBound cs lead gap gap₁ rest)
    (hr : Reading.Complete none cs is) :
    ∃ marker js, is =
      lead.map (.piece ∘ .plain) ++ .opening gap (some ⟨gap₁, Text.gap rest⟩) marker :: js := by
  obtain ⟨rfl, hlead, hgap, hgap₁⟩ := h
  obtain ⟨prev, js, rfl, hjs⟩ := exists_complete_of_isGap hlead hr
  cases hjs with
  | cons hi _ =>
    rw [Item.read, if_pos rfl, Item.readOpening_bound hgap hgap₁, Item.readMarker] at hi
    cases hi
    exact ⟨_, _, rfl⟩

theorem length_flatMap_output (is : List Item) :
    (is.flatMap Item.output).length = (is.flatMap Item.source).length := by
  simp only [List.length_flatMap, Item.length_output]

/-- The three marks of the binding are blanked, and what follows keeps its length. -/
theorem OpensBound.exists_output (h : OpensBound cs lead gap gap₁ rest)
    (hr : Reading.Complete none cs is) :
    ∃ rest', is.flatMap Item.output = lead ++ ' ' :: (gap ++ ' ' :: (gap₁ ++ ' ' :: rest')) ∧
      byteLength rest' = byteLength rest ∧ rest'.length = rest.length := by
  obtain ⟨marker, js, his⟩ := h.exists_items hr
  have hout : is.flatMap Item.output = lead ++ ' ' :: (gap ++ ' ' :: (gap₁ ++ ' ' ::
      (Text.gap rest ++ (List.replicate marker.length ' ' ++ js.flatMap Item.output)))) := by
    rw [his, List.flatMap_append, Item.flatMap_plain fun _ => rfl]
    simp [Item.output, Binding.output]
  have hbytes := @Grammar.byteLength_flatMap_output none cs is [] (by rwa [List.append_nil])
  have hlength := length_flatMap_output is
  rw [hr.flatMap_source, h.eq, hout] at hbytes hlength
  refine ⟨_, hout, ?_, ?_⟩
  · have hbrace : '{'.utf8Size = ' '.utf8Size := by decide
    have hquestion : '?'.utf8Size = ' '.utf8Size := by decide
    have hequals : '='.utf8Size = ' '.utf8Size := by decide
    simpa only [byteLength_append, byteLength_cons, hbrace, hquestion, hequals,
      Nat.add_left_cancel_iff] using hbytes
  · simpa only [List.length_append, List.length_cons, Nat.add_left_cancel_iff,
      Nat.add_right_cancel_iff] using hlength

end Reading

namespace Client

variable {σ γ : Type}

/-- What is prepared on request is the native text of the submitted statement, under the flag
that it is submitted with. -/
theorem prepared_step {c : Client σ γ} {r : Request} {sql : String} {b : Bool} {p : Prepared γ}
    (hr : c.submission? r = some (sql, b)) (hp : (c.step r).reply = .prepared p) :
    ∃ t, nativeText sql b = .ok t ∧ p.sql = t.text ∧
      p.returnsValue = (b && opensWithBinding sql.toList) := by
  have hs := c.serves_step r
  generalize c.step r = turn at hs hp
  cases hs with
  | prepared _ hr' ht _ =>
    obtain ⟨⟩ := hr.symm.trans hr'
    cases hp
    exact ⟨_, ht, rfl, rfl⟩
  | _ => cases hp

/-- A statement that is prepared returns a value just where it is processed and is a binding
at its front. Then the three marks of the binding are blanks in the text that is prepared,
everything else keeps its place, and the reading has taken just these characters as the binding
of a return value. -/
theorem returnsValue_iff_binding {c : Client σ γ} {r : Request} {sql : String} {b : Bool}
    {p : Prepared γ} (hr : c.submission? r = some (sql, b))
    (hp : (c.step r).reply = .prepared p) :
    (p.returnsValue = true ↔
      b = true ∧ ∃ lead gap gap₁ rest, OpensBound sql.toList lead gap gap₁ rest) ∧
    (b = true → ∀ lead gap gap₁ rest, OpensBound sql.toList lead gap gap₁ rest →
      (∃ rest', p.sql.toList = lead ++ ' ' :: (gap ++ ' ' :: (gap₁ ++ ' ' :: rest')) ∧
        byteLength rest' = byteLength rest ∧ rest'.length = rest.length) ∧
      ∃ marker is, readStatement sql.toList =
        .ok (lead.map (.piece ∘ .plain) ++
          .opening gap (some ⟨gap₁, Text.gap rest⟩) marker :: is)) := by
  obtain ⟨t, ht, hsql, hreturns⟩ := prepared_step hr hp
  rw [hreturns, hsql, Bool.and_eq_true, opensWithBinding_iff]
  have hreading (hb : b = true) (h : BindsReturnValue sql.toList) :
      ∃ is, Reading.Complete none sql.toList is ∧ Nesting.levelBehind 0 is = .ok 0 ∧
        t.text.toList = is.flatMap Item.output := by
    have hmem : '{' ∈ sql.toList := by
      obtain ⟨lead, gap, bound, -, -, hs⟩ := h
      rw [hs]
      exact List.mem_append_right lead List.mem_cons_self
    obtain ⟨is, hc, hl, -, hout⟩ := NativeText.exists_reading hmem (hb ▸ ht)
    exact ⟨is, hc, hl, hout⟩
  constructor
  · refine and_congr_right fun hb => ⟨fun h => ?_, ?_⟩
    · obtain ⟨is, hc, -, -⟩ := hreading hb h
      exact h.exists_opensBound hc
    · rintro ⟨lead, gap, gap₁, rest, h⟩
      exact h.bindsReturnValue
  · intro hb lead gap gap₁ rest h
    obtain ⟨is, hc, hl, hout⟩ := hreading hb h.bindsReturnValue
    have hread := readStatement_eq_ok_iff.2 ⟨Reading.complete_iff.1 hc, hl⟩
    obtain ⟨marker, js, his⟩ := h.exists_items hc
    rw [hout]
    exact ⟨h.exists_output hc, marker, js, by rw [hread, his]⟩

/-- A call with blanks in front of its brace and between its marks, given to an engine that
keeps its texts. -/
theorem returnsValue_iff_binding_call :
    let c := start Engine.recording [] {}
    c.submission? (.prepareCall " \x7b ? =call p\x7d") = some (" \x7b ? =call p\x7d", true) ∧
      (c.step (.prepareCall " \x7b ? =call p\x7d")).reply =
        .prepared ⟨"      call p ", 1, true⟩ ∧
      OpensBound " \x7b ? =call p\x7d".toList [' '] [' '] [' '] "call p\x7d".toList ∧
      ∃ rest', "      call p ".toList = [' '] ++ ' ' :: ([' '] ++ ' ' :: ([' '] ++ ' ' :: rest')) ∧
        byteLength rest' = byteLength "call p\x7d".toList := by
  intro c
  have hr : c.submission? (.prepareCall " \x7b ? =call p\x7d") =
      some (" \x7b ? =call p\x7d", true) := rfl
  have hp : (c.step (.prepareCall " \x7b ? =call p\x7d")).reply =
      .prepared ⟨"      call p ", 1, true⟩ := by decide +kernel
  have hblank : IsGap [' '] := fun c hc => by
    rw [List.mem_singleton.1 hc]
    decide
  have hbound : OpensBound " \x7b ? =call p\x7d".toList [' '] [' '] [' '] "call p\x7d".toList :=
    ⟨by decide, hblank, hblank, hblank⟩
  obtain ⟨⟨rest', hsql, hbytes, -⟩, -⟩ := (returnsValue_iff_binding hr hp).2 rfl _ _ _ _ hbound
  exact ⟨hr, hp, hbound, rest', hsql, hbytes⟩

end Client

end EscapeClause
