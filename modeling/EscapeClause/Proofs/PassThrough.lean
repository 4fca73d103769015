import EscapeClause.Proofs.Rewriter.Trail

/-! Statements that come through as they are. The run of the rewriter begins its output at the
first opening brace that its main loop meets, whatever that brace opens. Main statement: the
native text is the submitted statement itself exactly where no such brace is met, and a text
built with the same characters exactly where each of them opens a native literal. -/

namespace EscapeClause

open Text

/-- At byte `p` of the text stands an opening brace that begins a native literal: behind the gap
comes a digit. -/
def OpensNative (cs : List Char) (p : Nat) : Prop :=
  ∃ before gap d after, cs = before ++ '{' :: (gap ++ d :: after) ∧ p = byteLength before ∧
    IsGap gap ∧ d.isDigit = true

namespace Item

/-- Items with the same outputs as sources, taken together, have them one by one. -/
theorem output_eq_of_flatMap_eq {is : List Item}
    (h : is.flatMap output = is.flatMap source) : ∀ i ∈ is, i.output = i.source := by
  induction is with
  | nil => exact fun i hi => absurd hi List.not_mem_nil
  | cons i is ih =>
    rw [List.flatMap_cons, List.flatMap_cons] at h
    obtain ⟨hi, his⟩ := List.append_inj h i.length_output
    exact List.forall_mem_cons.2 ⟨hi, ih his⟩

theorem opensClause_of_output_eq {i : Item} (h : i.output = i.source) : i.opensClause = false := by
  cases i with
  | opening gap binding marker =>
    obtain ⟨hspace, -⟩ := List.cons.inj h
    exact absurd hspace (by decide)
  | _ => rfl

theorem source_of_opensBrace {i : Item} (h : i.opensBrace = true) :
    ∃ tail, i.source = '{' :: tail := by
  cases i with
  | native gap body => exact ⟨_, rfl⟩
  | opening gap binding marker => exact ⟨_, rfl⟩
  | _ => cases h

end Item

/-- The brace that an item begins with opens no clause just where it begins a native literal. -/
theorem opensNative_iff {cs : List Char} {us vs : List Item} {i : Item}
    (hr : Reading.Complete none cs (us ++ i :: vs)) (hi : i.opensBrace = true) :
    OpensNative cs (byteLength (us.flatMap Item.source)) ↔ i.opensClause = false := by
  obtain ⟨c, tail, hc, hread⟩ := hr.read_at
  obtain ⟨xs, hxs⟩ := Item.source_of_opensBrace hi
  obtain ⟨rfl, -⟩ := List.cons.inj (hc.trans (by rw [hxs]; rfl))
  have hcs : cs = us.flatMap Item.source ++ '{' :: tail := by
    rw [← hr.flatMap_source, List.flatMap_append, List.flatMap_cons, ← hc]
  rw [hread.opensClause_eq_false_iff]
  constructor
  · rintro ⟨before, gap, d, after, hs, hp, hg, hd⟩
    obtain ⟨rfl, htail⟩ := append_inj_byteLength (hcs.symm.trans hs) hp
    exact ⟨gap, d, after, (List.cons.inj htail).2, hg, hd⟩
  · rintro ⟨gap, d, after, rfl, hg, hd⟩
    exact ⟨_, gap, d, after, hcs, rfl, hg, hd⟩

namespace Rewriter

/-- The main loop of the run over a statement meets an opening brace at byte `p`. Literals,
comments and the bodies of native literals are behind the loop before it looks again. -/
def Meets (sql : String) (p : Nat) : Prop :=
  ∃ r, Reaches (start sql) r ∧ r.point = .scan ∧ r.peek = .ok (some '{') ∧ r.cursor.pos = p

/-- A run comes to each of the items of its statement. -/
theorem Scans.exists_reaches {before written cs : List Char} {begun : Bool} {level final : Nat}
    {r : Rewriter} {is js : List Item} (h : Scans before written cs begun level r)
    (hr : Reading.Complete before.getLast? cs (is ++ js))
    (hl : Nesting.levelBehind level (is ++ js) = .ok final) :
    ∃ r' written' begun' level', Reaches r r' ∧
      Scans (before ++ is.flatMap Item.source) written' (js.flatMap Item.source) begun' level'
        r' := by
  induction is generalizing before written cs begun level r with
  | nil =>
    rw [List.nil_append] at hr
    rw [List.flatMap_nil, List.append_nil, hr.flatMap_source]
    exact ⟨r, written, begun, level, .refl r, h⟩
  | cons i is ih =>
    cases hr with
    | @cons _ c tail rest _ _ hi hr =>
      obtain ⟨next, hnext, hrest⟩ := Nesting.levelBehind_cons_eq_ok_iff.1 hl
      obtain ⟨r₁, hreach, h₁⟩ := h.reaches (Item.read_eq_ok_iff.1 hi) hnext
      rw [← List.getLast?_append_of_ne_nil before (Item.source_ne_nil_of_read hi)] at hr
      obtain ⟨r', written', begun', level', hreach', h'⟩ := ih h₁ hr hrest
      rw [List.flatMap_cons, ← List.append_assoc]
      exact ⟨r', written', begun', level', hreach.trans hreach', h'⟩

section Meets

variable {sql : String} {is : List Item} {final p : Nat}

/-- The braces that the main loop meets are those that an item begins with. -/
theorem meets_iff (hr : Reading.Complete none sql.toList is)
    (hl : Nesting.levelBehind 0 is = .ok final) :
    Meets sql p ↔
      ∃ us i vs, is = us ++ i :: vs ∧ i.opensBrace = true ∧
        p = byteLength (us.flatMap Item.source) := by
  constructor
  · rintro ⟨r, hreach, hpoint, hpeek, hpos⟩
    obtain ⟨js, hf⟩ := (follows_start sql).of_reaches hreach
    cases hf with
    | @scan us _ done kept after level hp _ hs =>
      rw [peek_state] at hpeek
      obtain ⟨rest, rfl⟩ := List.head?_eq_some_iff.1 (Except.ok.inj hpeek)
      -- what has been read so far are the first of the items, and the next one has the brace
      obtain ⟨prev, ks, rfl, hks⟩ := hp.exists_append hr
      cases hks with
      | @cons _ _ _ mid i vs hi _ =>
        refine ⟨us, i, vs, rfl, ?_, ?_⟩
        · have hread := Item.read_eq_ok_iff.1 hi
          cases hread with
          | piece ho => exact absurd rfl ho
          | native => rfl
          | opening => rfl
        · rw [← hpos, ← hs]
          rfl
    | _ => cases hpoint
  · rintro ⟨us, i, vs, rfl, hi, rfl⟩
    obtain ⟨r, written, begun, level, hreach, hscan⟩ :=
      (scans_start sql).exists_reaches (by exact hr) hl
    obtain ⟨tail, htail⟩ := Item.source_of_opensBrace hi
    rw [List.flatMap_cons, htail] at hscan
    obtain ⟨hs, -, -, -⟩ := hscan
    refine ⟨_, hreach, rfl, peek_state, ?_⟩
    show byteLength _ = _
    rw [hs]
    rfl

theorem not_meets_iff (hr : Reading.Complete none sql.toList is)
    (hl : Nesting.levelBehind 0 is = .ok final) :
    (∀ p, ¬ Meets sql p) ↔ is.any Item.opensBrace = false := by
  simp only [meets_iff hr hl, List.any_eq_false]
  constructor
  · intro h i hi hbrace
    obtain ⟨us, vs, rfl⟩ := List.append_of_mem hi
    exact h _ ⟨us, i, vs, rfl, hbrace, rfl⟩
  · rintro h p ⟨us, i, vs, rfl, hbrace, -⟩
    exact h i (List.mem_append_right us List.mem_cons_self) hbrace

/-- A statement comes out with the same characters just where each brace that is met begins a
native literal. -/
theorem output_eq_source_iff (hr : Reading.Complete none sql.toList is)
    (hl : Nesting.levelBehind 0 is = .ok final) :
    is.flatMap Item.output = is.flatMap Item.source ↔
      ∀ p, Meets sql p → OpensNative sql.toList p := by
  simp only [meets_iff hr hl]
  constructor
  · rintro h p ⟨us, i, vs, rfl, hbrace, rfl⟩
    have hi := Item.output_eq_of_flatMap_eq h i (List.mem_append_right us List.mem_cons_self)
    exact (opensNative_iff hr hbrace).2 (Item.opensClause_of_output_eq hi)
  · intro h
    refine NativeText.flatMap_output_of_not_opensClause (fun i hi => ?_) hl
    obtain ⟨us, vs, rfl⟩ := List.append_of_mem hi
    cases hclause : i.opensClause with
    | false => rfl
    | true =>
      have hbrace := Item.opensBrace_of_opensClause hclause
      rw [(opensNative_iff hr hbrace).1 (h _ ⟨us, i, vs, rfl, hbrace, rfl⟩)] at hclause
      cases hclause

/-- A run that succeeds has read its statement, and its answer is made of the items. -/
theorem Halts.exists_reading {t : NativeText} (h : Halts (start sql) (.done t)) :
    ∃ is, Reading.Complete none sql.toList is ∧ Nesting.levelBehind 0 is = .ok 0 ∧
      t = .ofItems sql is := by
  obtain ⟨js, hjs⟩ := h.exists_trail
  obtain ⟨is, hr, -⟩ := (follows_start sql).of_trail hjs
  have hv := (halts_start sql).unique h
  rw [Reading.complete_iff.1 hr] at hv
  simp only [verdict, List.nil_append, Bool.false_or, hr.flatMap_source] at hv
  split at hv
  · cases hv
  · next level hl =>
    split_ifs at hv with hzero
    cases hv
    refine ⟨is, hr, hzero ▸ hl, ?_⟩
    rw [ending, NativeText.ofItems, String.ofList_toList]

end Meets

end Rewriter

section Answers

variable {sql : String} {escapeProcessing : Bool} {t : NativeText} {is : List Item}

/-- A native text is the statement that nothing was run on, or it is made of the items. -/
theorem nativeText_eq_ok_cases (h : nativeText sql escapeProcessing = .ok t) :
    (escapeProcessing = false ∨ '{' ∉ sql.toList) ∧ t = .submitted sql ∨
      escapeProcessing = true ∧ '{' ∈ sql.toList ∧
        ∃ is, Reading.Complete none sql.toList is ∧ Nesting.levelBehind 0 is = .ok 0 ∧
          t = .ofItems sql is := by
  cases escapeProcessing with
  | false =>
    cases h
    exact .inl ⟨.inl rfl, rfl⟩
  | true =>
    by_cases hb : '{' ∈ sql.toList
    · obtain ⟨is, hr, hl, ht, -⟩ := NativeText.exists_reading hb h
      exact .inr ⟨rfl, hb, is, hr, hl, ht⟩
    · rw [nativeText_of_not_mem hb] at h
      cases h
      exact .inl ⟨.inr hb, rfl⟩

namespace NativeText

theorem eq_of_ofItems_eq_submitted {s : String} (h : ofItems sql is = .submitted s) :
    is.any Item.opensBrace = false ∧ s = sql := by
  rw [ofItems] at h
  split at h
  · cases h
  · next hno =>
    cases h
    exact ⟨Bool.eq_false_iff.2 hno, rfl⟩

theorem ofItems_of_not_opensBrace (h : is.any Item.opensBrace = false) :
    ofItems sql is = .submitted sql :=
  if_neg (Bool.eq_false_iff.1 h)

theorem eq_of_ofItems_eq_built {text : String} (h : ofItems sql is = .built text) :
    text = String.ofList (is.flatMap Item.output) := by
  rw [ofItems] at h
  split at h
  · cases h
    rfl
  · cases h

end NativeText

end Answers

open Rewriter in
/-- Pass-through. A native text is the submitted statement itself just where nothing is run, or
the run would meet no opening brace; otherwise it is a text of its own, with the same characters
just where each brace that the run meets begins a native literal. Without an opening brace in
the statement a run that succeeds gives what is given without it. -/
theorem nativeText_passes_through (sql : String) :
    (∀ escapeProcessing t, nativeText sql escapeProcessing = .ok t →
      ((∃ s, t = .submitted s) ↔
        escapeProcessing = false ∨ (∀ p, ¬ Meets sql p) ∨ '{' ∉ sql.toList) ∧
      (∀ s, t = .submitted s → s = sql) ∧
      ∀ text, t = .built text → (text = sql ↔ ∀ p, Meets sql p → OpensNative sql.toList p)) ∧
    ('{' ∉ sql.toList → ∀ t, Halts (start sql) (.done t) →
      t = .submitted sql ∧ nativeText sql true = .ok t) := by
  constructor
  · intro escapeProcessing t h
    obtain ⟨hno, rfl⟩ | ⟨rfl, hb, is, hr, hl, rfl⟩ := nativeText_eq_ok_cases h
    · refine ⟨iff_of_true ⟨sql, rfl⟩ ?_, fun s hs => (NativeText.submitted.inj hs).symm, ?_⟩
      · exact hno.imp_right .inr
      · rintro text ⟨⟩
    · refine ⟨?_, fun s hs => (NativeText.eq_of_ofItems_eq_submitted hs).2, fun text ht => ?_⟩
      · simp only [not_meets_iff hr hl, hb, not_true_eq_false, or_false, Bool.true_eq_false,
          false_or]
        constructor
        · rintro ⟨s, hs⟩
          exact (NativeText.eq_of_ofItems_eq_submitted hs).1
        · exact fun hno => ⟨sql, NativeText.ofItems_of_not_opensBrace hno⟩
      · rw [NativeText.eq_of_ofItems_eq_built ht, ← output_eq_source_iff hr hl, hr.flatMap_source,
          ← String.toList_inj, String.toList_ofList]
  · intro hb t ht
    obtain ⟨is, hr, -, rfl⟩ := ht.exists_reading
    have hno : is.any Item.opensBrace = false := by
      refine List.any_eq_false.2 fun i hi hbrace => hb ?_
      obtain ⟨tail, htail⟩ := Item.source_of_opensBrace hbrace
      rw [← hr.flatMap_source]
      exact List.mem_flatMap.2 ⟨i, hi, by rw [htail]; exact List.mem_cons_self⟩
    rw [NativeText.ofItems_of_not_opensBrace hno]
    exact ⟨rfl, nativeText_of_not_mem hb⟩

/-- In the first statement one brace begins a native literal and the other stands in a string;
the second has no brace at all. -/
theorem nativeText_passes_through_native :
    (nativeText "{1} '{x}'" true = .ok (.built "{1} '{x}'") ∧
      (∃ p, Rewriter.Meets "{1} '{x}'" p) ∧
        ∀ p, Rewriter.Meets "{1} '{x}'" p → OpensNative "{1} '{x}'".toList p) ∧
      Rewriter.Halts (.start "a 'b'") (.done (.submitted "a 'b'")) ∧
        nativeText "a 'b'" true = .ok (.submitted "a 'b'") := by
  have h : nativeText "{1} '{x}'" true = .ok (.built "{1} '{x}'") := by decide +kernel
  obtain ⟨hsubmitted, -, hbuilt⟩ := (nativeText_passes_through "{1} '{x}'").1 true _ h
  have hrun : Rewriter.Halts (.start "a 'b'") (.done (.submitted "a 'b'")) :=
    ⟨4, by decide +kernel⟩
  refine ⟨⟨h, ?_, (hbuilt _ rfl).1 rfl⟩, hrun,
    ((nativeText_passes_through "a 'b'").2 (by decide) _ hrun).2⟩
  by_contra! hno
  obtain ⟨s, ⟨⟩⟩ := hsubmitted.2 (.inr (.inl hno))

end EscapeClause
