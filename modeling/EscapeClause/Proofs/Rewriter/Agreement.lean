import EscapeClause.Proofs.NativeText
import EscapeClause.Proofs.Rewriter.Safety
import Mathlib.Data.List.Basic

/-! The rewriter takes a statement item by item. A turn of its main loop moves it over the
item that is read at its place, and it fails where no item can be read or where clauses
do not nest. -/

namespace EscapeClause

open Text

namespace Rewriter

section Runs

variable {r s t : Rewriter} {h h' : Halt}

theorem Reaches.refl (r : Rewriter) : Reaches r r := ⟨0, rfl⟩

theorem Reaches.head (hs : r.step = .ok s) (ht : Reaches s t) : Reaches r t := by
  obtain ⟨n, hn⟩ := ht
  exact ⟨n + 1, by rw [run, hs]; exact hn⟩

theorem Reaches.single (hs : r.step = .ok s) : Reaches r s := .head hs (.refl s)

theorem Halts.head (hs : r.step = .ok s) (hh : Halts s h) : Halts r h := by
  obtain ⟨n, hn⟩ := hh
  exact ⟨n + 1, by rw [run, hs]; exact hn⟩

theorem Halts.single (hs : r.step = .error h) : Halts r h := ⟨1, by rw [run, hs]; rfl⟩

theorem Reaches.trans (hs : Reaches r s) (ht : Reaches s t) : Reaches r t := by
  obtain ⟨n, hn⟩ := hs
  induction n generalizing r with
  | zero => cases hn; exact ht
  | succ n ih =>
    obtain ⟨r', hr', hrun⟩ := run_succ_eq_ok_iff.1 hn
    exact .head hr' (ih hrun)

/-- A run ends in one way only. -/
theorem Halts.unique (hh : Halts r h) (hh' : Halts r h') : h = h' := by
  obtain ⟨n, hn⟩ := hh
  obtain ⟨m, hm⟩ := hh'
  induction n generalizing r m with
  | zero => cases hn
  | succ n ih =>
    cases m with
    | zero => cases hm
    | succ m =>
      rw [run] at hn hm
      cases hr : r.step with
      | error k =>
        rw [hr] at hn hm
        cases hn
        cases hm
        rfl
      | ok s =>
        rw [hr] at hn hm
        exact ih hn m hm

theorem Reaches.halts (hs : Reaches r s) (hh : Halts s h) : Halts r h := by
  obtain ⟨n, hn⟩ := hs
  induction n generalizing r with
  | zero => cases hn; exact hh
  | succ n ih =>
    obtain ⟨r', hr', hrun⟩ := run_succ_eq_ok_iff.1 hn
    exact .head hr' (ih hrun)

end Runs

variable {out : Option (List Char)} {done kept after cs rest : List Char} {level : Nat} {c : Char}

theorem getLast?_kept {xs : List Char} (hx : xs ≠ []) :
    (done ++ (kept ++ xs)).getLast? = xs.getLast? := by
  rw [← List.append_assoc]
  exact List.getLast?_append_of_ne_nil _ hx

section Native

variable {prev : Option Char}

/-- The loop over a native literal passes over its body and its closing brace. -/
theorem reaches_native {body : List Piece} (hp : (done ++ kept).getLast? = prev)
    (h : Item.readBody prev cs = .ok (body, rest)) :
    Reaches (state .native out done kept cs (level + 1))
      (state .scan out done (kept ++ (body.flatMap Piece.text ++ ['}'])) rest level) := by
  fun_induction Item.readBody prev cs generalizing kept body with
  | case1 => cases h
  | case2 => cases h; exact .single native_close
  | case3 => cases h
  | case4 => cases h
  | case5 prev c cs hc p after hread _ tail after' hb ih =>
    cases h
    subst hp
    have htail := @ih (kept ++ p.text) _ (getLast?_kept (Piece.text_ne_nil_of_read hread)) hb
    rw [List.append_assoc] at htail
    rw [List.flatMap_cons, List.append_assoc]
    exact .head ((native_pass hc).trans (pass_state hread)) htail

theorem halts_native {f : Fault} (hp : (done ++ kept).getLast? = prev)
    (h : Item.readBody prev cs = .error f) :
    Halts (state .native out done kept cs level) (.failed (f.behind (done ++ kept)).error) := by
  fun_induction Item.readBody prev cs generalizing kept f with
  | case1 =>
    cases h
    rw [Fault.behind, List.append_nil]
    exact .single native_end
  | case2 => cases h
  | case3 prev c cs hc kind hread =>
    cases h
    subst hp
    rw [Fault.behind, List.append_nil]
    exact .single ((native_pass hc).trans (pass_state_of_error hread))
  | case4 prev c cs hc p after hread _ f' hb ih =>
    cases h
    subst hp
    have htail := @ih (kept ++ p.text) _ (getLast?_kept (Piece.text_ne_nil_of_read hread)) hb
    rw [← List.append_assoc, ← Fault.behind_behind] at htail
    exact .head ((native_pass hc).trans (pass_state hread)) htail
  | case5 => cases h

end Native

section Opening

variable {gap : List Char}

theorem scan_open_gap (hg : IsGap gap) (hc : ∀ x ∈ cs.head?, isBlank x = false) :
    (state .scan out done kept ('{' :: (gap ++ cs)) level).step =
      .ok (state (.opened (byteLength (done ++ kept))) (some (out.getD [])) done
        (kept ++ '{' :: gap) cs (level + 1)) := by
  rw [scan_open, gap_append_of_head hg hc, dropGap_append_of_head hg hc]

theorem opened_question_gap {passed : List Char} (hg : IsGap gap)
    (hc : ∀ x ∈ cs.head?, isBlank x = false) :
    (state (.opened (byteLength (done ++ kept))) out done (kept ++ '{' :: passed)
      ('?' :: (gap ++ cs)) level).step =
      .ok (state .binding (some (out.getD [] ++ kept ++ [' '] ++ passed ++ [' ']))
        (done ++ kept ++ ['{'] ++ passed ++ ['?']) gap cs level) := by
  rw [opened_question, gap_append_of_head hg hc, dropGap_append_of_head hg hc]

theorem binding_equals_gap (hg : IsGap gap) (hc : ∀ x ∈ cs.head?, isBlank x = false) :
    (state .binding out done kept ('=' :: (gap ++ cs)) level).step =
      .ok (state .word (some (out.getD [] ++ kept ++ [' '])) (done ++ kept ++ ['=']) gap cs
        level) := by
  rw [binding_equals, gap_append_of_head hg hc, dropGap_append_of_head hg hc]

/-- The run takes the head of a clause and stands in front of the word behind it. -/
theorem reaches_word {tail : List Char} {binding : Option Binding}
    (ho : Item.Opened gap binding tail) :
    ∃ written done' kept', Reaches
        (state .scan out done kept
          ('{' :: (gap ++ (binding.elim [] Binding.source ++ tail))) level)
        (state .word (some written) done' kept' tail (level + 1)) ∧
      done' ++ kept' = done ++ kept ++ '{' :: gap ++ binding.elim [] Binding.source ∧
      written ++ kept' =
        out.getD [] ++ kept ++ ' ' :: gap ++ binding.elim [] Binding.output := by
  cases ho with
  | @clause c tail hg hb hd hq =>
    refine ⟨_, _, _, .head (scan_open_gap hg (head?_of_not_isBlank hb))
      (.single (opened_clause hd hq)), ?_, ?_⟩
    · simp
    · simp
  | @bound _ b hg h₁ h₂ ht =>
    have hquestion : isBlank '?' = false := by decide
    have hequals : isBlank '=' = false := by decide
    rw [Option.elim_some, Binding.source_append]
    refine ⟨_, _, _, .head (scan_open_gap hg (head?_of_not_isBlank hquestion))
      (.head (opened_question_gap h₁ (head?_of_not_isBlank hequals))
        (.single (binding_equals_gap h₂ ht))), ?_, ?_⟩
    · simp [Binding.source]
    · simp [Binding.output]

/-- The word behind the head of a clause is taken with it if it is a marker. -/
theorem reaches_of_word {written : List Char} :
    ∃ written' done' kept', Reaches (state .word (some written) done kept after level)
        (state .scan (some written') done' kept' (after.drop (Item.markerLength after)) level) ∧
      done' ++ kept' = done ++ kept ++ Item.marker after ∧
      written' ++ kept' =
        written ++ kept ++ List.replicate (Item.marker after).length ' ' := by
  by_cases hm : Item.marker after = []
  · have hrest := Item.marker_append_drop after
    rw [hm, List.nil_append] at hrest
    rw [hrest, hm]
    exact ⟨_, _, _, .single (word_of_marker_eq_nil hm), by simp, by simp⟩
  · exact ⟨_, _, _, .single (word_of_marker_ne_nil hm), by simp, by simp⟩

/-- The run takes the opening of a clause with its marker. -/
theorem reaches_opening {tail : List Char} {binding : Option Binding}
    (ho : Item.Opened gap binding tail) (ht : tail = Item.marker tail ++ rest) :
    ∃ written done' kept', Reaches
        (state .scan out done kept
          ('{' :: (gap ++ (binding.elim [] Binding.source ++ tail))) level)
        (state .scan (some written) done' kept' rest (level + 1)) ∧
      done' ++ kept' = done ++ kept ++ (Item.opening gap binding (Item.marker tail)).source ∧
      written ++ kept' =
        out.getD [] ++ kept ++ (Item.opening gap binding (Item.marker tail)).output := by
  have hrest := List.append_cancel_left (ht.symm.trans (Item.marker_append_drop tail).symm)
  obtain ⟨written₁, done₁, kept₁, hrun₁, hs₁, hw₁⟩ :=
    @reaches_word out done kept level gap tail binding ho
  obtain ⟨written₂, done₂, kept₂, hrun₂, hs₂, hw₂⟩ :=
    @reaches_of_word done₁ kept₁ tail (level + 1) written₁
  rw [← hrest] at hrun₂
  refine ⟨written₂, done₂, kept₂, hrun₁.trans hrun₂, ?_, ?_⟩
  · rw [hs₂, hs₁]
    simp only [Item.source, List.append_assoc]
  · rw [hw₂, hw₁]
    simp only [Item.output, List.append_assoc]

/-- The run passes over a native literal as it is. -/
theorem reaches_native_literal {d : Char} {ds : List Char} {body : List Piece} (hg : IsGap gap)
    (hd : d.isDigit = true)
    (hb : Item.readBody ('{' :: gap).getLast? (d :: ds) = .ok (body, rest)) :
    Reaches (state .scan out done kept ('{' :: (gap ++ d :: ds)) level)
      (state .scan (some (out.getD [])) done (kept ++ (Item.native gap body).source) rest
        level) := by
  have hloop := @reaches_native (some (out.getD [])) done (kept ++ '{' :: gap) (d :: ds) rest level
    _ body (getLast?_kept (List.cons_ne_nil _ _)) hb
  rw [List.append_assoc] at hloop
  rw [Item.source, List.append_assoc]
  exact .head (scan_open_gap hg (head?_of_not_isBlank (Item.isBlank_of_isDigit hd)))
    (.head (opened_native hd) hloop)

/-- An opening that cannot be read ends the run with its fault. -/
theorem halts_opening {f : Fault} (h : Item.readOpening cs = .error f) :
    Halts (state .scan out done kept ('{' :: cs) level)
      (.failed (f.behind (done ++ kept)).error) := by
  have hs := Item.header cs
  cases hs with
  | ended hg =>
    rw [Item.readOpening_ended hg] at h
    cases h
    have hopen := @scan_open_gap out done kept [] level _ hg (by rintro x ⟨⟩)
    rw [List.append_nil] at hopen
    refine .head hopen (.single ?_)
    rw [opened_end, Fault.behind, List.append_assoc]
  | @native gap d ds hg hd =>
    rw [Item.readOpening_native hg hd] at h
    split at h
    · next f' hb =>
      cases h
      have hloop := @halts_native (some (out.getD [])) done (kept ++ '{' :: gap) (d :: ds)
        (level + 1) _ f' (getLast?_kept (List.cons_ne_nil _ _)) hb
      rw [← List.append_assoc, ← Fault.behind_behind] at hloop
      refine .head (scan_open_gap hg (head?_of_not_isBlank (Item.isBlank_of_isDigit hd)))
        (.head (opened_native hd) hloop)
    · cases h
  | clause hg hb hd hq => rw [Item.readOpening_clause hg hb hd hq] at h; cases h
  | bound hg h₁ => rw [Item.readOpening_bound hg h₁] at h; cases h
  | @unbound gap gap₁ ds hg h₁ hc =>
    rw [Item.readOpening_unbound hg h₁ hc] at h
    cases h
    have hquestion : isBlank '?' = false := by decide
    have hmissing : ds.head? ≠ some '=' := fun he => (hc '=' he).2 rfl
    refine .head (scan_open_gap hg (head?_of_not_isBlank hquestion))
      (.head (opened_question_gap h₁ fun x hx => (hc x hx).1) (.single ?_))
    rw [binding_missing hmissing, Fault.behind]
    simp

end Opening

/-- The rewriter is about to read an item between `before` and `after`. If it ended here it
would have made `written` of the text before, and its output has begun with an opening. -/
inductive Scans (before written after : List Char) (begun : Bool) (level : Nat) :
    Rewriter → Prop where
  | intro {out : Option (List Char)} {done kept : List Char} (hs : done ++ kept = before)
      (hw : out.getD [] ++ kept = written) (hb : out.isSome = begun)
      (hl : 0 < level → begun = true) :
      Scans before written after begun level (state .scan out done kept after level)

section Items

variable {r : Rewriter} {before written : List Char} {begun : Bool} {i : Item}

/-- One turn of the main loop for each item. -/
theorem Scans.reaches {level' : Nat} (h : Scans before written (c :: cs) begun level r)
    (hi : Item.Read before.getLast? c cs i rest) (hl : i.levelBehind? level = some level') :
    ∃ r', Reaches r r' ∧
      Scans (before ++ i.source) (written ++ i.output) rest (begun || i.opensBrace) level' r' := by
  obtain ⟨rfl, rfl, rfl, hbegun⟩ := h
  rename_i out done kept
  cases hi with
  | @piece _ _ _ p ho hc hp =>
    cases hl
    refine ⟨_, .single ((scan_pass ho hc).trans (pass_state hp)), .intro ?_ ?_ ?_ ?_⟩
    · exact (List.append_assoc ..).symm
    · exact (List.append_assoc ..).symm
    · exact (Bool.or_false _).symm
    · show 0 < level → (out.isSome || false) = true
      rw [Bool.or_false]
      exact hbegun
  | closing =>
    cases level with
    | zero => cases hl
    | succ level =>
      cases hl
      refine ⟨_, .single scan_close, .intro ?_ ?_ ?_ ?_⟩
      · exact List.append_nil _
      · exact List.append_nil _
      · rw [hbegun (Nat.succ_pos level)]
        rfl
      · intro _
        rw [hbegun (Nat.succ_pos level)]
        rfl
  | @native gap ds _ d body hg hd hb =>
    cases hl
    refine ⟨_, reaches_native_literal hg hd hb, .intro ?_ ?_ ?_ ?_⟩
    · exact (List.append_assoc ..).symm
    · exact (List.append_assoc ..).symm
    · exact (Bool.or_true _).symm
    · exact fun _ => Bool.or_true _
  | @opening gap tail _ binding ho ht =>
    cases hl
    obtain ⟨written, done', kept', hrun, hs, hw⟩ :=
      @reaches_opening out done kept rest level gap tail binding ho ht
    refine ⟨_, hrun, .intro hs hw ?_ ?_⟩
    · exact (Bool.or_true _).symm
    · exact fun _ => Bool.or_true _

/-- A closing without an open clause ends the run. -/
theorem Scans.halts_of_unbalanced (h : Scans before written (c :: cs) begun level r)
    (hi : Item.Read before.getLast? c cs i rest) (hl : i.levelBehind? level = none) :
    Halts r (.failed (Fault.behind before ⟨.unbalancedClosing, []⟩).error) := by
  obtain ⟨rfl, rfl, rfl, hbegun⟩ := h
  cases hi with
  | closing =>
    cases level with
    | zero =>
      rw [Fault.behind, List.append_nil]
      exact .single scan_close_of_none
    | succ level => cases hl
  | _ => cases hl

/-- The run ends with the fault of an item that cannot be read. -/
theorem Scans.halts_of_fault {f : Fault} (h : Scans before written (c :: cs) begun level r)
    (hi : Item.read before.getLast? c cs = .error f) :
    Halts r (.failed (f.behind before).error) := by
  obtain ⟨rfl, rfl, rfl, hbegun⟩ := h
  rename_i out done kept
  unfold Item.read at hi
  split at hi
  · next hopen =>
    subst hopen
    exact halts_opening hi
  · next hopen =>
    split at hi
    · cases hi
    · next hclose =>
      split at hi
      · next kind hread =>
        cases hi
        rw [Fault.behind, List.append_nil]
        exact .single ((scan_pass hopen hclose).trans (pass_state_of_error hread))
      · cases hi

end Items

/-- The text of a run that ends without an error. -/
def ending (before written : List Char) (begun : Bool) : NativeText :=
  if begun then .built (String.ofList written) else .submitted (String.ofList before)

/-- What the reading of the text behind `before` makes the run end with. -/
def verdict (before written : List Char) (begun : Bool) (level : Nat) (rd : Reading) : Halt :=
  match Nesting.levelBehind level rd.items with
  | .error f => .failed (f.behind before).error
  | .ok level =>
    match rd.fault? with
    | some f => .failed (f.behind before).error
    | none =>
      if level = 0 then
        .done (ending (before ++ rd.items.flatMap Item.source)
          (written ++ rd.items.flatMap Item.output) (begun || rd.items.any Item.opensBrace))
      else .failed (Fault.error ⟨Item.unterminatedClause, before ++ rd.items.flatMap Item.source⟩)

section Verdict

variable {r : Rewriter} {before written : List Char} {begun : Bool} {i : Item} {rd : Reading}

theorem verdict_cons {level' : Nat} (hl : i.levelBehind? level = some level') :
    verdict before written begun level (rd.cons i) =
      verdict (before ++ i.source) (written ++ i.output) (begun || i.opensBrace) level' rd := by
  simp only [verdict, Reading.cons, Nesting.levelBehind, hl]
  cases Nesting.levelBehind level' rd.items with
  | error f => simp only [Fault.behind_behind]
  | ok level =>
    cases rd.fault? with
    | some f => simp only [Option.map_some, Fault.behind_behind]
    | none =>
      simp only [Option.map_none, List.any_cons, Bool.or_assoc, List.flatMap_cons,
        List.append_assoc]

theorem verdict_cons_of_unbalanced (hl : i.levelBehind? level = none) :
    verdict before written begun level (rd.cons i) =
      .failed (Fault.behind before ⟨.unbalancedClosing, []⟩).error := by
  simp only [verdict, Reading.cons, Nesting.levelBehind, hl]

/-- From the main loop a run ends as the reading of the rest says. -/
theorem Scans.halts (h : Scans before written after begun level r) :
    Halts r (verdict before written begun level (Reading.read before.getLast? after)) := by
  generalize hp : before.getLast? = prev
  fun_induction Reading.read prev after generalizing before written begun level r with
  | case1 =>
    obtain ⟨rfl, rfl, rfl, hbegun⟩ := h
    rename_i out done kept
    cases level with
    | zero =>
      cases out with
      | none =>
        refine .single (scan_end_submitted.trans ?_)
        simp [verdict, ending, Nesting.levelBehind]
      | some written =>
        refine .single (scan_end_built.trans ?_)
        simp [verdict, ending, Nesting.levelBehind]
    | succ level =>
      refine .single (scan_end_of_pos.trans ?_)
      simp [verdict, Nesting.levelBehind]
  | case2 prev c cs f hi =>
    subst hp
    exact h.halts_of_fault hi
  | case3 prev c cs i rest hi _ ih =>
    subst hp
    have hread := Item.read_eq_ok_iff.1 hi
    cases hl : i.levelBehind? level with
    | none =>
      rw [verdict_cons_of_unbalanced hl]
      exact h.halts_of_unbalanced hread hl
    | some level' =>
      obtain ⟨r', hr', h'⟩ := h.reaches hread hl
      rw [verdict_cons hl]
      exact hr'.halts (ih h' (List.getLast?_append_of_ne_nil _ (Item.source_ne_nil_of_read hi)))

end Verdict

theorem scans_start (sql : String) : Scans [] [] sql.toList false 0 (start sql) := by
  rw [start_eq]
  exact .intro rfl rfl rfl fun h => absurd h (Nat.lt_irrefl 0)

/-- From its start a run ends as the reading of the statement says. -/
theorem halts_start (sql : String) :
    Halts (start sql) (verdict [] [] false 0 (Reading.read none sql.toList)) :=
  (scans_start sql).halts

theorem verdict_start {sql : String} (h : '{' ∈ sql.toList) :
    verdict [] [] false 0 (Reading.read none sql.toList) = .ofAnswer (nativeText sql true) := by
  have hsource := @Reading.flatMap_source_read none sql.toList
  rw [nativeText_of_mem h, readStatement]
  generalize Reading.read none sql.toList = rd at hsource ⊢
  obtain ⟨items, fault⟩ := rd
  simp only [verdict, List.nil_append, Bool.false_or]
  cases Nesting.levelBehind 0 items with
  | error f => rfl
  | ok level =>
    cases fault with
    | some f => rfl
    | none =>
      have htext : items.flatMap Item.source = sql.toList := hsource rfl
      by_cases h0 : level = 0
      · simp only [h0, if_true, htext, ending, String.ofList_toList, NativeText.ofItems,
          Halt.ofAnswer]
      · simp only [h0, if_false, htext, Halt.ofAnswer]

theorem verdict_ne_stuck (before written : List Char) (begun : Bool) (level : Nat) (rd : Reading) :
    verdict before written begun level rd ≠ .stuck := by
  intro h
  unfold verdict at h
  repeat' split at h
  all_goals cases h

/-- The answer of a run in one pass is the native text. -/
theorem answers_iff {sql : String} {escapeProcessing : Bool}
    {a : Except StatementError NativeText} :
    Answers sql escapeProcessing a ↔ a = nativeText sql escapeProcessing := by
  rw [Answers]
  split
  · next h =>
    obtain ⟨rfl, hb⟩ := Bool.and_eq_true_iff.1 h
    have hrun := halts_start sql
    rw [verdict_start (by simpa using hb)] at hrun
    constructor
    · intro ha
      exact Halt.ofAnswer_injective (ha.unique hrun)
    · rintro rfl
      exact hrun
  · next h => rw [nativeText, if_neg h]

/-- No run gets stuck and every run ends. At each state that is reached the positions are
boundaries in order and the output is as long as what it was made of, no step moves the
cursor back, and each turn of a loop moves it on. What comes out is the native text. -/
theorem runs_safely_to_nativeText (sql : String) :
    (∀ r, Reaches (start sql) r →
      r.Sound sql ∧ r.step ≠ .error .stuck ∧
        ∀ n r', run (n + 1) r = .ok r' →
          r.cursor.pos ≤ r'.cursor.pos ∧ (r.point.isLoop = true → r.cursor.pos < r'.cursor.pos)) ∧
      (∃ h, Halts (start sql) h ∧ h ≠ .stuck) ∧
      ∀ escapeProcessing a,
        Answers sql escapeProcessing a ↔ a = nativeText sql escapeProcessing := by
  refine ⟨?_, ⟨_, halts_start sql, verdict_ne_stuck _ _ _ _ _⟩, fun _ _ => answers_iff⟩
  rintro r ⟨m, hm⟩
  have hr := ((placed_start sql).of_run hm).1
  exact ⟨hr.sound, hr.step_ne_stuck, fun n r' hn =>
    ⟨(hr.of_run hn).2, fun hp => hr.pos_lt_of_run hp hn⟩⟩

end Rewriter

end EscapeClause
