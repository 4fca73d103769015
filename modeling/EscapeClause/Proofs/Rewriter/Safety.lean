import EscapeClause.Proofs.Rewriter.Steps

/-! The rewriter never gets stuck. At every place of a run its cursor stands between two
characters, the statement is written up to an earlier boundary, and the output is as long
as what it was made of. Each turn of a loop moves the cursor on. -/

namespace EscapeClause

open Text

/-- The heads of the two loops. -/
def Point.isLoop : Point → Bool
  | scan | native => true
  | _ => false

/-- Whether an opening brace waits to be blanked or kept. -/
def Point.isOpened : Point → Bool
  | opened _ => true
  | _ => false

namespace Rewriter

/-- Where a run may be in a statement. At an opening the brace and its gap have been moved
over, and the brace may still turn out to be blanked. -/
inductive Placed (sql : String) : Rewriter → Prop where
  | within {p : Point} {out : Option (List Char)} {done kept after : List Char} {level : Nat}
      (hp : p.isOpened = false) (hl : p = .scan ∨ 0 < level)
      (ht : sql.toList = done ++ kept ++ after)
      (ho : byteLength (out.getD []) = byteLength done) :
      Placed sql (state p out done kept after level)
  | opened {out : Option (List Char)} {done kept passed after : List Char} {level : Nat}
      (hl : 0 < level) (ht : sql.toList = done ++ (kept ++ '{' :: passed) ++ after)
      (ho : byteLength (out.getD []) = byteLength done) :
      Placed sql
        (state (.opened (byteLength (done ++ kept))) out done (kept ++ '{' :: passed) after level)

theorem placed_start (sql : String) : Placed sql (start sql) := by
  rw [start_eq]
  exact .within rfl (.inl rfl) rfl rfl

/-- What a step may come to: the run ends without being stuck, or it goes on at a place
that is not before this one, and behind it where a loop takes a turn. -/
inductive Outcome (sql : String) (r : Rewriter) : Except Halt Rewriter → Prop where
  | halted {h : Halt} (hs : h ≠ .stuck) : Outcome sql r (.error h)
  | moved {r' : Rewriter} (hp : Placed sql r') (hle : r.cursor.pos ≤ r'.cursor.pos)
      (hlt : r.point.isLoop = true → r.cursor.pos < r'.cursor.pos) : Outcome sql r (.ok r')

section Step

variable {sql : String} {p : Point} {out : Option (List Char)} {done kept after : List Char}
  {level : Nat}

theorem outcome_failed {r : Rewriter} {e : StatementError} : Outcome sql r (.error (.failed e)) :=
  .halted fun h => by cases h

/-- A step that moves over the characters `cs`. -/
theorem outcome_within {q : Point} {out' : Option (List Char)} {done' kept' after' : List Char}
    {level' : Nat} (cs : List Char) (ht : sql.toList = done ++ kept ++ after)
    (hq : q.isOpened = false) (hl : q = .scan ∨ 0 < level') (hafter : after = cs ++ after')
    (hcs : done' ++ kept' = done ++ kept ++ cs)
    (ho : byteLength (out'.getD []) = byteLength done') (hne : p.isLoop = false ∨ cs ≠ []) :
    Outcome sql (state p out done kept after level)
      (.ok (state q out' done' kept' after' level')) := by
  have hpos : (state q out' done' kept' after' level').cursor.pos =
      (state p out done kept after level).cursor.pos + byteLength cs := by
    show byteLength (done' ++ kept') = byteLength (done ++ kept) + byteLength cs
    rw [hcs, byteLength_append]
  refine .moved (.within hq hl ?_ ho) (by omega) fun hp => ?_
  · rw [ht, hafter, hcs]
    simp only [List.append_assoc]
  · rcases hne with hne | hne
    · cases hne.symm.trans hp
    · have := mt byteLength_eq_zero_iff.1 hne
      omega

/-- The output stays as long as what it is made of when a character of one byte is blanked. -/
theorem byteLength_blank {c : Char} (hc : c.utf8Size = 1)
    (ho : byteLength (out.getD []) = byteLength done) :
    byteLength ((some (out.getD [] ++ kept ++ [' '])).getD []) =
      byteLength (done ++ kept ++ [c]) := by
  have hspace : ' '.utf8Size = 1 := by decide
  simp [ho, hc, hspace]

theorem outcome_pass {c : Char} (hp : p.isOpened = false) (hl : p = .scan ∨ 0 < level)
    (ht : sql.toList = done ++ kept ++ c :: after)
    (ho : byteLength (out.getD []) = byteLength done) :
    Outcome sql (state p out done kept (c :: after) level)
      ((state p out done kept (c :: after) level).pass c) := by
  cases hread : Piece.read (done ++ kept).getLast? c after with
  | error kind =>
    rw [pass_state_of_error hread]
    exact outcome_failed
  | ok r =>
    obtain ⟨q, rest⟩ := r
    rw [pass_state hread]
    exact outcome_within q.text ht hp hl (Piece.append_of_read hread) (List.append_assoc ..).symm ho
      (.inr (Piece.text_ne_nil_of_read hread))

theorem outcome_scan (ht : sql.toList = done ++ kept ++ after)
    (ho : byteLength (out.getD []) = byteLength done) :
    Outcome sql (state .scan out done kept after level)
      (state .scan out done kept after level).step := by
  cases after with
  | nil =>
    cases level with
    | zero =>
      cases out with
      | none => rw [scan_end_submitted]; exact .halted fun h => by cases h
      | some written => rw [scan_end_built]; exact .halted fun h => by cases h
    | succ level => rw [scan_end_of_pos]; exact outcome_failed
  | cons c after =>
    by_cases hopen : c = '{'
    · subst hopen
      rw [scan_open]
      have hpos : (state .scan out done kept ('{' :: after) level).cursor.pos <
          byteLength (done ++ (kept ++ '{' :: gap after)) := by
        show byteLength (done ++ kept) < _
        simp only [byteLength_append, byteLength_cons]
        have := '{'.utf8Size_pos
        omega
      refine .moved (.opened (Nat.succ_pos level) ?_ ho) (Nat.le_of_lt hpos) fun _ => hpos
      rw [ht]
      simp
    · by_cases hclose : c = '}'
      · subst hclose
        cases level with
        | zero => rw [scan_close_of_none]; exact outcome_failed
        | succ level =>
          rw [scan_close]
          exact outcome_within ['}'] ht rfl (.inl rfl) rfl (List.append_nil _)
            (byteLength_blank (by decide) ho) (.inr (List.cons_ne_nil _ _))
      · rw [scan_pass hopen hclose]
        exact outcome_pass rfl (.inl rfl) ht ho

theorem outcome_opened {passed : List Char} (hl : 0 < level)
    (ht : sql.toList = done ++ (kept ++ '{' :: passed) ++ after)
    (ho : byteLength (out.getD []) = byteLength done) :
    Outcome sql
      (state (.opened (byteLength (done ++ kept))) out done (kept ++ '{' :: passed) after level)
      (state (.opened (byteLength (done ++ kept))) out done (kept ++ '{' :: passed) after
        level).step := by
  have hbrace := @byteLength_blank out done kept '{' (by decide) ho
  cases after with
  | nil => rw [opened_end]; exact outcome_failed
  | cons c after =>
    cases hd : c.isDigit with
    | true =>
      rw [opened_native hd]
      exact outcome_within [] ht rfl (.inr hl) rfl (List.append_nil _).symm ho (.inl rfl)
    | false =>
      by_cases hq : c = '?'
      · subst hq
        rw [opened_question]
        refine outcome_within ('?' :: gap after) ht rfl (.inr hl) ?_ ?_
          (byteLength_blank (by decide) hbrace) (.inl rfl)
        · simp
        · simp
      · rw [opened_clause hd hq]
        refine outcome_within [] ht rfl (.inr hl) rfl ?_ hbrace (.inl rfl)
        simp

theorem outcome_binding (hl : 0 < level) (ht : sql.toList = done ++ kept ++ after)
    (ho : byteLength (out.getD []) = byteLength done) :
    Outcome sql (state .binding out done kept after level)
      (state .binding out done kept after level).step := by
  by_cases hc : after.head? = some '='
  · obtain ⟨after, rfl⟩ := List.head?_eq_some_iff.1 hc
    rw [binding_equals]
    refine outcome_within ('=' :: gap after) ht rfl (.inr hl) ?_ ?_
      (byteLength_blank (by decide) ho) (.inl rfl)
    · simp
    · simp
  · rw [binding_missing hc]
    exact outcome_failed

theorem outcome_word (ht : sql.toList = done ++ kept ++ after)
    (ho : byteLength (out.getD []) = byteLength done) :
    Outcome sql (state .word out done kept after level)
      (state .word out done kept after level).step := by
  by_cases hm : Item.marker after = []
  · rw [word_of_marker_eq_nil hm]
    exact outcome_within [] ht rfl (.inl rfl) rfl (List.append_nil _).symm ho (.inl rfl)
  · rw [word_of_marker_ne_nil hm]
    refine outcome_within (Item.marker after) ht rfl (.inl rfl)
      (Item.marker_append_drop after).symm (List.append_nil _) ?_ (.inl rfl)
    simp only [Option.getD_some, byteLength_append, ho, byteLength_replicate_space,
      Item.byteLength_marker]

theorem outcome_native (hl : 0 < level) (ht : sql.toList = done ++ kept ++ after)
    (ho : byteLength (out.getD []) = byteLength done) :
    Outcome sql (state .native out done kept after level)
      (state .native out done kept after level).step := by
  cases after with
  | nil => rw [native_end]; exact outcome_failed
  | cons c after =>
    by_cases hclose : c = '}'
    · subst hclose
      obtain ⟨level, rfl⟩ := Nat.exists_eq_add_one.2 hl
      rw [native_close]
      exact outcome_within ['}'] ht rfl (.inl rfl) rfl (List.append_assoc ..).symm ho
        (.inr (List.cons_ne_nil _ _))
    · rw [native_pass hclose]
      exact outcome_pass rfl (.inr hl) ht ho

end Step

/-- Every step from a place of a run is safe. -/
theorem Placed.outcome {sql : String} {r : Rewriter} (h : Placed sql r) :
    Outcome sql r r.step := by
  cases h with
  | @within p out done kept after level hp hl ht ho =>
    have hpos (hs : p ≠ .scan) : 0 < level := hl.resolve_left hs
    cases p with
    | scan => exact outcome_scan ht ho
    | opened brace => cases hp
    | binding => exact outcome_binding (hpos (by decide)) ht ho
    | word => exact outcome_word ht ho
    | native => exact outcome_native (hpos (by decide)) ht ho
  | opened hl ht ho => exact outcome_opened hl ht ho

section Run

variable {sql : String} {n : Nat} {r r' : Rewriter}

theorem run_succ_eq_ok_iff : run (n + 1) r = .ok r' ↔ ∃ s, r.step = .ok s ∧ run n s = .ok r' := by
  rw [run]
  cases r.step with
  | error h => exact ⟨fun h => (by cases h), fun ⟨s, hs, _⟩ => (by cases hs)⟩
  | ok s => exact ⟨fun h => ⟨s, rfl, h⟩, fun ⟨t, ht, h⟩ => (by cases ht; exact h)⟩

/-- A run stays at the places of its statement and does not move back. -/
theorem Placed.of_run (h : Placed sql r) (hr : run n r = .ok r') :
    Placed sql r' ∧ r.cursor.pos ≤ r'.cursor.pos := by
  induction n generalizing r with
  | zero => cases hr; exact ⟨h, Nat.le_refl _⟩
  | succ n ih =>
    obtain ⟨s, hs, hrun⟩ := run_succ_eq_ok_iff.1 hr
    have ho := h.outcome
    rw [hs] at ho
    cases ho with
    | moved hp hle hlt =>
      obtain ⟨hp', hle'⟩ := ih hp hrun
      exact ⟨hp', Nat.le_trans hle hle'⟩

theorem Placed.step_ne_stuck (h : Placed sql r) : r.step ≠ .error .stuck := by
  intro hs
  have ho := h.outcome
  rw [hs] at ho
  cases ho with
  | halted hne => exact hne rfl

theorem Placed.pos_lt_of_run (h : Placed sql r) (hp : r.point.isLoop = true)
    (hr : run (n + 1) r = .ok r') : r.cursor.pos < r'.cursor.pos := by
  obtain ⟨s, hs, hrun⟩ := run_succ_eq_ok_iff.1 hr
  have ho := h.outcome
  rw [hs] at ho
  cases ho with
  | moved hps hle hlt => exact Nat.lt_of_lt_of_le (hlt hp) (hps.of_run hrun).2

end Run

/-- The byte position that the next blank starts at. -/
def place (r : Rewriter) : Nat :=
  match r.point with
  | .opened brace => brace
  | _ => r.cursor.pos

/-- What holds whenever a run is at `r`: its positions are boundaries of the statement in
order, and the output is what was made of the part in front of `copied`. -/
structure Sound (sql : String) (r : Rewriter) : Prop where
  text_eq : r.cursor.text = sql
  pos_le : r.cursor.pos ≤ byteLength sql.toList
  isBoundary_pos : IsBoundary sql.toList r.cursor.pos
  isBoundary_place : IsBoundary sql.toList r.place
  isBoundary_copied : IsBoundary sql.toList r.copied
  copied_le_place : r.copied ≤ r.place
  place_le_pos : r.place ≤ r.cursor.pos
  byteLength_output : ∀ out, r.output = some out → byteLength out = r.copied
  copied_eq_zero : r.output = none → r.copied = 0
  level_pos : r.point ≠ .scan → 0 < r.level

theorem sound_state {sql : String} {p : Point} {out : Option (List Char)}
    {done kept passed after : List Char} {level : Nat}
    (hp : (state p out done (kept ++ passed) after level).place = byteLength (done ++ kept))
    (hl : p ≠ .scan → 0 < level) (ht : sql.toList = done ++ (kept ++ passed) ++ after)
    (ho : byteLength (out.getD []) = byteLength done) :
    (state p out done (kept ++ passed) after level).Sound sql where
  text_eq := by
    rw [← String.ofList_toList (s := sql), ht]
    rfl
  pos_le := by
    rw [ht, byteLength_append _ after]
    exact Nat.le_add_right _ _
  isBoundary_pos := ⟨_, after, ht, rfl⟩
  isBoundary_place := ⟨done ++ kept, passed ++ after, by rw [ht]; simp, hp⟩
  isBoundary_copied := ⟨done, kept ++ passed ++ after, by rw [ht]; simp, rfl⟩
  copied_le_place := by
    rw [hp, byteLength_append]
    exact Nat.le_add_right _ _
  place_le_pos := by
    rw [hp]
    show byteLength (done ++ kept) ≤ byteLength (done ++ (kept ++ passed))
    simp only [byteLength_append]
    omega
  byteLength_output := by
    rintro written rfl
    exact ho
  copied_eq_zero := by
    rintro rfl
    exact ho.symm
  level_pos := hl

theorem Placed.sound {sql : String} {r : Rewriter} (h : Placed sql r) : r.Sound sql := by
  cases h with
  | @within p out done kept after level hp hl ht ho =>
    rw [← List.append_nil kept] at ht ⊢
    refine sound_state ?_ (fun hs => hl.resolve_left hs) ht ho
    cases p with
    | opened brace => cases hp
    | _ => rw [List.append_nil]; rfl
  | opened hl ht ho => exact sound_state rfl (fun _ => hl) ht ho

end Rewriter

end EscapeClause
