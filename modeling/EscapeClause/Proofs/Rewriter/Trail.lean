import EscapeClause.Proofs.Rewriter.Agreement

/-! Where the rewriter jumps. A literal or comment is passed over in one jump, and so is a
character that might have started one. At every state of a run the statement has been read
up to a place, and the jumps so far are those of the items in front of it. Main statement:
the jumps of a run that succeeds are those of the items of the statement. -/

namespace EscapeClause

open Text

/-- What the elements report, each told the byte position that its text begins at. -/
def placed {α β : Type} (text : α → List Char) (report : Nat → α → List β) :
    Nat → List α → List β
  | _, [] => []
  | pos, a :: as => report pos a ++ placed text report (pos + byteLength (text a)) as

theorem placed_append {α β : Type} (text : α → List Char) (report : Nat → α → List β) (pos : Nat)
    (as bs : List α) :
    placed text report pos (as ++ bs) =
      placed text report pos as ++ placed text report (pos + byteLength (as.flatMap text)) bs := by
  induction as generalizing pos with
  | nil => rfl
  | cons a as ih =>
    rw [List.cons_append, placed, ih, placed, List.append_assoc, List.flatMap_cons,
      byteLength_append, Nat.add_assoc]

theorem placed_concat {α β : Type} (text : α → List Char) (report : Nat → α → List β) (pos : Nat)
    (as : List α) (a : α) :
    placed text report pos (as ++ [a]) =
      placed text report pos as ++ report (pos + byteLength (as.flatMap text)) a := by
  rw [placed_append, placed, placed, List.append_nil]

/-- The bytes of a piece that is passed over in one jump. -/
def Piece.jumps (pos : Nat) : Piece → List Span
  | passed text => [⟨pos, pos + byteLength text⟩]
  | plain _ => []

/-- The jumps of an item. In a native literal those of its body are told apart. -/
def Item.jumps (pos : Nat) : Item → List Span
  | piece p => p.jumps pos
  | native gap body => placed Piece.text Piece.jumps (pos + byteLength ('{' :: gap)) body
  | _ => []

/-- The jumps of a statement with these items. -/
def jumps (is : List Item) : List Span := placed Item.source Item.jumps 0 is

theorem jumps_concat (is : List Item) (i : Item) :
    jumps (is ++ [i]) = jumps is ++ i.jumps (byteLength (is.flatMap Item.source)) := by
  rw [jumps, placed_concat, Nat.zero_add, jumps]

namespace Item

/-- `PassesBody prev cs ps rest`: in a native literal, behind `prev`, the pieces `ps` are read
from `cs` one after the other, and `rest` is left. -/
inductive PassesBody : Option Char → List Char → List Piece → List Char → Prop where
  | nil (prev : Option Char) (rest : List Char) : PassesBody prev rest [] rest
  | cons {prev : Option Char} {c : Char} {cs mid rest : List Char} {p : Piece} {ps : List Piece}
      (hc : c ≠ '}') (hp : Piece.read prev c cs = .ok (p, mid))
      (hr : PassesBody p.text.getLast? mid ps rest) : PassesBody prev (c :: cs) (p :: ps) rest

/-- What comes of the rest of a native literal with pieces in front of it. -/
def prefixedBody (ps : List Piece) :
    Except Fault (List Piece × List Char) → Except Fault (List Piece × List Char)
  | .ok (body, rest) => .ok (ps ++ body, rest)
  | .error f => .error (f.behind (ps.flatMap Piece.text))

theorem prefixedBody_nil (r : Except Fault (List Piece × List Char)) :
    prefixedBody [] r = r := by
  cases r <;> rfl

namespace PassesBody

variable {prev : Option Char} {cs rest : List Char} {ps : List Piece}

theorem eq_append (h : PassesBody prev cs ps rest) : cs = ps.flatMap Piece.text ++ rest := by
  induction h with
  | nil => rfl
  | cons _ hp _ ih => rw [Piece.append_of_read hp, ih, List.flatMap_cons, List.append_assoc]

theorem concat {c : Char} {tail rest' : List Char} {p : Piece}
    (h : PassesBody prev cs ps (c :: tail)) (hc : c ≠ '}')
    (hp : Piece.read ((ps.flatMap Piece.text).getLast?.or prev) c tail = .ok (p, rest')) :
    PassesBody prev cs (ps ++ [p]) rest' := by
  generalize hrest : c :: tail = rest at h
  induction h with
  | nil prev => subst hrest; exact .cons hc hp (.nil _ _)
  | cons hc' hp' _ ih =>
    rw [List.flatMap_cons, Reading.getLast?_append_or (Piece.text_ne_nil_of_read hp')] at hp
    exact .cons hc' hp' (ih hp hrest)

/-- Behind pieces of a native literal only the rest of it is still to be read. -/
theorem readBody_eq (h : PassesBody prev cs ps rest) :
    readBody prev cs =
      prefixedBody ps (readBody ((ps.flatMap Piece.text).getLast?.or prev) rest) := by
  induction h with
  | nil prev rest => rw [prefixedBody_nil]; rfl
  | @cons _ _ _ _ rest p ps hc hp _ ih =>
    rw [readBody_of_ok hc hp, ih, List.flatMap_cons,
      Reading.getLast?_append_or (Piece.text_ne_nil_of_read hp)]
    cases readBody ((ps.flatMap Piece.text).getLast?.or p.text.getLast?) rest with
    | ok r => rfl
    | error f => exact congrArg Except.error (f.behind_behind p.text (ps.flatMap Piece.text))

end PassesBody

end Item

namespace Nesting

theorem levelBehind_concat {level mid final : Nat} {is : List Item} {i : Item}
    (h : levelBehind level is = .ok mid) (hi : i.levelBehind? mid = some final) :
    levelBehind level (is ++ [i]) = .ok final := by
  induction is generalizing level with
  | nil => cases h; exact levelBehind_cons_eq_ok_iff.2 ⟨final, hi, rfl⟩
  | cons j is ih =>
    obtain ⟨next, hj, hr⟩ := levelBehind_cons_eq_ok_iff.1 h
    exact levelBehind_cons_eq_ok_iff.2 ⟨next, hj, ih hr⟩

end Nesting

theorem Reading.Passes.concat {cs tail rest : List Char} {is : List Item} {c : Char} {i : Item}
    (h : Passes none cs is (c :: tail))
    (hi : Item.Read (is.flatMap Item.source).getLast? c tail i rest) :
    Passes none cs (is ++ [i]) rest := by
  refine h.append (.cons ?_ (.nil _ rest))
  rw [Option.or_none]
  exact Item.read_eq_ok_iff.2 hi

namespace Rewriter

/-- The bytes that the next step jumps over, if one of the loops passes over a character that
may start a literal or comment, or over what it starts. -/
def jump? (r : Rewriter) : Option Span :=
  match r.peek, r.step with
  | .ok (some c), .ok r' =>
    if r.point.isLoop = true ∧ Piece.mayStartLiteral c = true then
      some ⟨r.cursor.pos, r'.cursor.pos⟩
    else none
  | _, _ => none

/-- `Trail r js h`: a run from `r` makes the jumps `js` in this order and ends with `h`. -/
inductive Trail : Rewriter → List Span → Halt → Prop where
  | halt {r : Rewriter} {h : Halt} (hs : r.step = .error h) : Trail r [] h
  | step {r r' : Rewriter} {js : List Span} {h : Halt} (hs : r.step = .ok r')
      (ht : Trail r' js h) : Trail r (r.jump?.toList ++ js) h

theorem Trail.unique {r : Rewriter} {js ks : List Span} {h k : Halt} (ht : Trail r js h)
    (ht' : Trail r ks k) : ks = js ∧ k = h := by
  induction ht generalizing ks with
  | halt hs =>
    cases ht' with
    | halt hs' => rw [hs] at hs'; cases hs'; exact ⟨rfl, rfl⟩
    | step hs' => rw [hs] at hs'; cases hs'
  | step hs _ ih =>
    cases ht' with
    | halt hs' => rw [hs] at hs'; cases hs'
    | step hs' ht' =>
      rw [hs] at hs'
      cases hs'
      obtain ⟨rfl, rfl⟩ := ih ht'
      exact ⟨rfl, rfl⟩

theorem Halts.exists_trail {r : Rewriter} {h : Halt} (hh : Halts r h) : ∃ js, Trail r js h := by
  obtain ⟨n, hn⟩ := hh
  induction n generalizing r with
  | zero => cases hn
  | succ n ih =>
    rw [run] at hn
    cases hs : r.step with
    | error k => rw [hs] at hn; cases hn; exact ⟨[], .halt hs⟩
    | ok r' =>
      rw [hs] at hn
      obtain ⟨js, hjs⟩ := ih hn
      exact ⟨_, .step hs hjs⟩

/-- `Follows cs r js`: the run over the statement `cs` is at `r` behind the jumps `js`. The
items `is` have been read, and at most one more is begun. -/
inductive Follows (cs : List Char) : Rewriter → List Span → Prop where
  | scan {is : List Item} {out : Option (List Char)} {done kept after : List Char} {level : Nat}
      (hp : Reading.Passes none cs is after) (hl : Nesting.levelBehind 0 is = .ok level)
      (hs : done ++ kept = is.flatMap Item.source) :
      Follows cs (state .scan out done kept after level) (jumps is)
  | opened {is : List Item} {out : Option (List Char)} {done kept gap after : List Char}
      {level : Nat} (hp : Reading.Passes none cs is ('{' :: (gap ++ after)))
      (hl : Nesting.levelBehind 0 is = .ok level) (hg : IsGap gap)
      (hc : ∀ c ∈ after.head?, isBlank c = false) (hs : done ++ kept = is.flatMap Item.source) :
      Follows cs (state (.opened (byteLength (done ++ kept))) out done (kept ++ '{' :: gap) after
        (level + 1)) (jumps is)
  | binding {is : List Item} {out : Option (List Char)} {done kept gap gap₁ after : List Char}
      {level : Nat} (hp : Reading.Passes none cs is ('{' :: (gap ++ '?' :: (gap₁ ++ after))))
      (hl : Nesting.levelBehind 0 is = .ok level) (hg : IsGap gap) (h₁ : IsGap gap₁)
      (hs : done ++ kept = is.flatMap Item.source ++ '{' :: (gap ++ '?' :: gap₁)) :
      Follows cs (state .binding out done kept after (level + 1)) (jumps is)
  | word {is : List Item} {out : Option (List Char)} {done kept gap after : List Char}
      {binding : Option Binding} {level : Nat}
      (hp : Reading.Passes none cs is
        ('{' :: (gap ++ (binding.elim [] Binding.source ++ after))))
      (hl : Nesting.levelBehind 0 is = .ok level) (ho : Item.Opened gap binding after)
      (hs : done ++ kept =
        is.flatMap Item.source ++ '{' :: (gap ++ binding.elim [] Binding.source)) :
      Follows cs (state .word out done kept after (level + 1)) (jumps is)
  | native {is : List Item} {out : Option (List Char)} {done kept gap after ds : List Char}
      {d : Char} {body : List Piece} {level : Nat}
      (hp : Reading.Passes none cs is ('{' :: (gap ++ d :: ds)))
      (hl : Nesting.levelBehind 0 is = .ok level) (hg : IsGap gap) (hd : d.isDigit = true)
      (hb : Item.PassesBody ('{' :: gap).getLast? (d :: ds) body after)
      (hs : done ++ kept = is.flatMap Item.source ++ '{' :: gap ++ body.flatMap Piece.text) :
      Follows cs (state .native out done kept after (level + 1))
        (jumps is ++ placed Piece.text Piece.jumps
          (byteLength (is.flatMap Item.source ++ '{' :: gap)) body)

section Jump

variable {p : Point} {out : Option (List Char)} {done kept after cs rest : List Char}
  {level : Nat} {c : Char}

theorem jump?_of_not_isLoop {r : Rewriter} (hp : r.point.isLoop = false) : r.jump? = none := by
  unfold jump?
  split
  · rw [if_neg fun h => by rw [hp] at h; cases h.1]
  · rfl

theorem jump?_of_brace (hc : Piece.mayStartLiteral c = false) :
    (state p out done kept (c :: after) level).jump? = none := by
  rw [jump?, peek_state, List.head?_cons]
  split
  · next h _ =>
    cases h
    rw [if_neg fun h => by rw [hc] at h; cases h.2]
  · rfl

/-- A loop jumps over a piece as the piece says. -/
theorem jump?_of_pass {q : Piece} (hp : p.isLoop = true)
    (hq : Piece.read (done ++ kept).getLast? c cs = .ok (q, rest))
    (hs : (state p out done kept (c :: cs) level).step =
      .ok (state p out done (kept ++ q.text) rest level)) :
    (state p out done kept (c :: cs) level).jump?.toList =
      q.jumps (byteLength (done ++ kept)) := by
  have hpos : byteLength (done ++ (kept ++ q.text)) =
      byteLength (done ++ kept) + byteLength q.text := by
    rw [← List.append_assoc, byteLength_append]
  rw [jump?, peek_state, hs]
  dsimp only [List.head?_cons]
  unfold Piece.read at hq
  split at hq
  · next hm =>
    rw [if_pos ⟨hp, hm⟩]
    split at hq
    · cases hq
      show [Span.mk (byteLength (done ++ kept)) (byteLength (done ++ (kept ++ _)))] = _
      rw [hpos]
      rfl
    · cases hq
  · next hm =>
    cases hq
    rw [if_neg fun h => hm h.2]
    rfl

end Jump

/-- What a step may come to: the run fails, it succeeds with all items read, or it goes on with
one more jump at most. -/
inductive Turn (cs : List Char) (r : Rewriter) (js : List Span) : Except Halt Rewriter → Prop where
  | failed (e : StatementError) : Turn cs r js (.error (.failed e))
  | done {t : NativeText} {is : List Item} (hr : Reading.Complete none cs is)
      (hj : js = jumps is) : Turn cs r js (.error (.done t))
  | moved {r' : Rewriter} (hf : Follows cs r' (js ++ r.jump?.toList)) : Turn cs r js (.ok r')

section Step

variable {cs done kept after gap : List Char} {is : List Item} {out : Option (List Char)}
  {level : Nat} {js : List Span} (hl : Nesting.levelBehind 0 is = .ok level)

theorem Turn.of_not_isLoop {r r' : Rewriter} (hr : r.point.isLoop = false)
    (hf : Follows cs r' js) : Turn cs r js (.ok r') := by
  refine .moved ?_
  rwa [jump?_of_not_isLoop hr, Option.toList_none, List.append_nil]

/-- A loop passes over a piece, or it fails. -/
theorem turn_pass {p : Point} {c : Char} (hp : p.isLoop = true)
    (hstep : (state p out done kept (c :: after) level).step =
      (state p out done kept (c :: after) level).pass c)
    (hf : ∀ q rest, Piece.read (done ++ kept).getLast? c after = .ok (q, rest) →
      Follows cs (state p out done (kept ++ q.text) rest level)
        (js ++ q.jumps (byteLength (done ++ kept)))) :
    Turn cs (state p out done kept (c :: after) level) js
      (state p out done kept (c :: after) level).step := by
  cases hq : Piece.read (done ++ kept).getLast? c after with
  | error kind =>
    rw [hstep, pass_state_of_error hq]
    exact .failed _
  | ok answer =>
    obtain ⟨q, rest⟩ := answer
    rw [pass_state hq] at hstep
    have hmoved := hf q rest hq
    rw [← jump?_of_pass hp hq hstep] at hmoved
    rw [hstep]
    exact .moved hmoved

include hl

theorem turn_scan (hp : Reading.Passes none cs is after)
    (hs : done ++ kept = is.flatMap Item.source) :
    Turn cs (state .scan out done kept after level) (jumps is)
      (state .scan out done kept after level).step := by
  cases after with
  | nil =>
    have hcomplete := Reading.complete_iff_passes.2 hp
    cases level with
    | zero =>
      cases out with
      | none => rw [scan_end_submitted]; exact .done hcomplete rfl
      | some written => rw [scan_end_built]; exact .done hcomplete rfl
    | succ level => rw [scan_end_of_pos]; exact .failed _
  | cons c after =>
    by_cases ho : c = '{'
    · subst ho
      rw [scan_open]
      refine .moved ?_
      rw [jump?_of_brace (by decide), Option.toList_none, List.append_nil]
      exact .opened (by rwa [gap_append_dropGap]) hl (isGap_gap after) isBlank_of_head?_dropGap
        hs
    by_cases hc : c = '}'
    · subst hc
      cases level with
      | zero => rw [scan_close_of_none]; exact .failed _
      | succ level =>
        have hscan := @Follows.scan cs (is ++ [.closing])
          (some (out.getD [] ++ kept ++ [' '])) (done ++ kept ++ ['}']) [] after level
          (hp.concat (.closing after)) (Nesting.levelBehind_concat hl rfl)
          (by rw [List.append_nil, hs, List.flatMap_append]; rfl)
        rw [jumps_concat] at hscan
        rw [scan_close]
        refine .moved ?_
        rw [jump?_of_brace (by decide)]
        exact hscan
    · refine turn_pass rfl (scan_pass ho hc) fun q rest hq => ?_
      rw [hs] at hq
      have hscan := @Follows.scan cs (is ++ [.piece q]) out done (kept ++ q.text) rest level
        (hp.concat (.piece ho hc hq)) (Nesting.levelBehind_concat hl rfl)
        (by rw [← List.append_assoc, hs, List.flatMap_append, List.flatMap_singleton]; rfl)
      rw [jumps_concat, ← hs] at hscan
      exact hscan

theorem turn_opened (hp : Reading.Passes none cs is ('{' :: (gap ++ after))) (hg : IsGap gap)
    (hc : ∀ c ∈ after.head?, isBlank c = false) (hs : done ++ kept = is.flatMap Item.source) :
    Turn cs (state (.opened (byteLength (done ++ kept))) out done (kept ++ '{' :: gap) after
        (level + 1)) (jumps is)
      (state (.opened (byteLength (done ++ kept))) out done (kept ++ '{' :: gap) after
        (level + 1)).step := by
  cases after with
  | nil => rw [opened_end]; exact .failed _
  | cons c after =>
    cases hd : c.isDigit with
    | true =>
      have hnative := @Follows.native cs is out done (kept ++ '{' :: gap) gap (c :: after) after c
        [] level hp hl hg hd (.nil _ _)
        (by rw [← List.append_assoc, hs, List.flatMap_nil, List.append_nil])
      rw [placed, List.append_nil] at hnative
      rw [opened_native hd]
      exact .of_not_isLoop rfl hnative
    | false =>
      by_cases hq : c = '?'
      · subst hq
        rw [opened_question]
        have hafter : Reading.Passes none cs is
            ('{' :: (gap ++ '?' :: (Text.gap after ++ dropGap after))) := by
          rwa [gap_append_dropGap]
        exact .of_not_isLoop rfl (.binding hafter hl hg (isGap_gap after) (by simp [hs]))
      · rw [opened_clause hd hq]
        have hafter : Reading.Passes none cs is
            ('{' :: (gap ++ (Option.elim none [] Binding.source ++ c :: after))) := hp
        exact .of_not_isLoop rfl
          (.word hafter hl (.clause hg (hc c rfl) hd hq) (by simp [hs]))

theorem turn_binding {gap₁ : List Char}
    (hp : Reading.Passes none cs is ('{' :: (gap ++ '?' :: (gap₁ ++ after)))) (hg : IsGap gap)
    (h₁ : IsGap gap₁) (hs : done ++ kept = is.flatMap Item.source ++ '{' :: (gap ++ '?' :: gap₁)) :
    Turn cs (state .binding out done kept after (level + 1)) (jumps is)
      (state .binding out done kept after (level + 1)).step := by
  by_cases he : after.head? = some '='
  · obtain ⟨tail, rfl⟩ := List.head?_eq_some_iff.1 he
    rw [binding_equals]
    have hbound := Item.Opened.bound_gap gap tail hg h₁
    refine .of_not_isLoop rfl (.word ?_ hl hbound ?_)
    · rwa [Option.elim_some, Binding.source_append, gap_append_dropGap]
    · simp [hs, Binding.source]
  · rw [binding_missing he]
    exact .failed _

theorem turn_word {binding : Option Binding}
    (hp : Reading.Passes none cs is ('{' :: (gap ++ (binding.elim [] Binding.source ++ after))))
    (ho : Item.Opened gap binding after)
    (hs : done ++ kept =
      is.flatMap Item.source ++ '{' :: (gap ++ binding.elim [] Binding.source)) :
    Turn cs (state .word out done kept after (level + 1)) (jumps is)
      (state .word out done kept after (level + 1)).step := by
  have hrest := Item.marker_append_drop after
  have hpasses := hp.concat (.opening ho hrest.symm)
  have hlevel := Nesting.levelBehind_concat (i := Item.opening gap binding (Item.marker after))
    hl rfl
  have hsource : (is ++ [Item.opening gap binding (Item.marker after)]).flatMap Item.source =
      done ++ kept ++ Item.marker after := by
    simp [hs, Item.source]
  have hjumps : jumps (is ++ [Item.opening gap binding (Item.marker after)]) = jumps is := by
    rw [jumps_concat]
    exact List.append_nil _
  rw [← hjumps]
  by_cases hm : Item.marker after = []
  · rw [hm, List.nil_append] at hrest
    rw [hrest] at hpasses
    rw [word_of_marker_eq_nil hm]
    exact .of_not_isLoop rfl (.scan hpasses hlevel (by rw [hsource, hm, List.append_nil]))
  · rw [word_of_marker_ne_nil hm]
    exact .of_not_isLoop rfl (.scan hpasses hlevel (by rw [hsource, List.append_nil]))

theorem turn_native {ds : List Char} {d : Char} {body : List Piece}
    (hp : Reading.Passes none cs is ('{' :: (gap ++ d :: ds))) (hg : IsGap gap)
    (hd : d.isDigit = true) (hb : Item.PassesBody ('{' :: gap).getLast? (d :: ds) body after)
    (hs : done ++ kept = is.flatMap Item.source ++ '{' :: gap ++ body.flatMap Piece.text) :
    Turn cs (state .native out done kept after (level + 1))
      (jumps is ++
        placed Piece.text Piece.jumps (byteLength (is.flatMap Item.source ++ '{' :: gap)) body)
      (state .native out done kept after (level + 1)).step := by
  cases after with
  | nil => rw [native_end]; exact .failed _
  | cons c after =>
    by_cases hc : c = '}'
    · subst hc
      have hread := hb.readBody_eq
      rw [Item.readBody_closing, Item.prefixedBody, List.append_nil] at hread
      have hscan := @Follows.scan cs (is ++ [.native gap body]) out done (kept ++ ['}']) after
        level (hp.concat (.native hg hd hread)) (Nesting.levelBehind_concat hl rfl)
        (by rw [← List.append_assoc, hs]; simp [Item.source])
      rw [jumps_concat, Item.jumps, ← byteLength_append] at hscan
      rw [native_close]
      refine .moved ?_
      rw [jump?_of_brace (by decide), Option.toList_none, List.append_nil]
      exact hscan
    · refine turn_pass rfl (native_pass hc) fun q rest hq => ?_
      rw [hs, List.getLast?_append, List.getLast?_append_of_ne_nil _ (List.cons_ne_nil '{' gap)]
        at hq
      have hnative := @Follows.native cs is out done (kept ++ q.text) gap rest ds d (body ++ [q])
        level hp hl hg hd (hb.concat hc hq) (by rw [← List.append_assoc, hs]; simp)
      rw [placed_concat, ← byteLength_append, ← hs, ← List.append_assoc] at hnative
      exact hnative

end Step

section Follows

variable {cs : List Char} {r r' : Rewriter} {js : List Span}

/-- Each step keeps to the reading of the statement. -/
theorem Follows.turn (h : Follows cs r js) : Turn cs r js r.step := by
  cases h with
  | scan hp hl hs => exact turn_scan hl hp hs
  | opened hp hl hg hc hs => exact turn_opened hl hp hg hc hs
  | binding hp hl hg h₁ hs => exact turn_binding hl hp hg h₁ hs
  | word hp hl ho hs => exact turn_word hl hp ho hs
  | native hp hl hg hd hb hs => exact turn_native hl hp hg hd hb hs

theorem Follows.step (h : Follows cs r js) (hstep : r.step = .ok r') :
    Follows cs r' (js ++ r.jump?.toList) := by
  have hturn := h.turn
  rw [hstep] at hturn
  cases hturn with
  | moved hf => exact hf

theorem follows_start (sql : String) : Follows sql.toList (start sql) [] := by
  rw [start_eq]
  exact @Follows.scan _ [] none [] [] _ 0 (.nil none _) rfl rfl

theorem Follows.of_reaches (h : Follows cs r js) (hr : Reaches r r') : ∃ ks, Follows cs r' ks := by
  obtain ⟨n, hn⟩ := hr
  induction n generalizing r js with
  | zero => cases hn; exact ⟨js, h⟩
  | succ n ih =>
    obtain ⟨s, hs, hrun⟩ := run_succ_eq_ok_iff.1 hn
    exact ih (h.step hs) hrun

/-- The jumps of a run that succeeds are those of the items of its statement. -/
theorem Follows.of_trail {t : NativeText} {ks : List Span} (h : Follows cs r js)
    (ht : Trail r ks (.done t)) : ∃ is, Reading.Complete none cs is ∧ js ++ ks = jumps is := by
  generalize he : Halt.done t = k at ht
  induction ht generalizing js with
  | halt hs =>
    subst he
    have hturn := h.turn
    rw [hs] at hturn
    cases hturn with
    | @done _ is hr hj => exact ⟨is, hr, by rw [List.append_nil, hj]⟩
  | step hs _ ih =>
    rw [← List.append_assoc]
    exact ih (h.step hs) he

end Follows

end Rewriter

end EscapeClause
