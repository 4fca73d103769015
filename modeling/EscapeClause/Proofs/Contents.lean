import EscapeClause.Proofs.Blanking
import EscapeClause.Proofs.Stop
import EscapeClause.Proofs.Rewriter.Trail

/-! What stands inside a literal or comment. Where a run comes to a literal or comment, what
it writes before has been decided, and what it writes behind depends on the rest only.
Main statement: other contents of a literal or comment change the native text in these
contents alone, and move an error by as much as they are longer. -/

namespace EscapeClause

open Text

/-- Where a mark does not end before the end of a text, it is found there. -/
theorem Text.splitAfter_of_first {mark cs : List Char}
    (h : ∀ xs ys, cs ++ mark = xs ++ mark ++ ys → ys = []) (rest : List Char) :
    splitAfter mark (cs ++ mark ++ rest) = some (cs ++ mark, rest) := by
  cases hs : splitAfter mark (cs ++ mark) with
  | none => exact absurd ⟨cs, [], List.append_nil _⟩ (splitAfter_eq_none_iff.1 hs)
  | some parts =>
    obtain ⟨before, after⟩ := parts
    have happend := append_of_splitAfter hs
    obtain ⟨xs, rfl⟩ := suffix_of_splitAfter hs
    obtain rfl := h xs after happend
    rw [List.append_nil] at happend
    rw [happend]
    exact splitAfter_replace hs rest

/-- `Encloses o b c`: with the contents `b`, the literal or comment that `o` opens goes up to
`c`. A line comment goes up to its line end, which is not part of it. -/
inductive Encloses : List Char → List Char → List Char → Prop where
  | enclosed (kind : Enclosed) {b : List Char}
      (hb : ∀ xs ys, b ++ kind.closer = xs ++ kind.closer ++ ys → ys = []) :
      Encloses kind.opener b kind.closer
  | line {o b : List Char} {e : Char} (ho : o = ['/', '/'] ∨ o = ['-', '-'])
      (he : isLineEnd e = true) (hb : ∀ x ∈ b, isLineEnd x = false) : Encloses o b [e]

/-- A mark does not end too early if its first character does not come again. -/
theorem first_of_not_mem {e : Char} {mark b : List Char} (hb : e ∉ b) (hm : e ∉ mark)
    (xs ys : List Char) (h : b ++ e :: mark = xs ++ e :: mark ++ ys) : ys = [] := by
  rw [List.append_assoc, List.cons_append, List.append_cons_inj_of_notMem hb hm] at h
  exact List.self_eq_append_right.1 h.2.2

/-- Only two dollars open something or not, by the character before them. -/
theorem Encloses.isSome_opening?_iff {o b c : List Char} (h : Encloses o b c)
    {prev : Option Char} {body : List Char} :
    (Literal.opening? prev (o ++ body)).isSome ↔
      (o = ['$', '$'] → prev.all isBlank = true) := by
  cases h with
  | enclosed kind =>
    cases kind with
    | dollarQuoted =>
      rw [Enclosed.opener, List.cons_append, List.singleton_append, Literal.opening?]
      by_cases hp : prev.all isBlank = true <;> simp [hp]
    | _ => exact iff_of_true rfl fun h => by cases h
  | line ho => rcases ho with rfl | rfl <;> exact iff_of_true rfl fun h => by cases h

theorem Encloses.exists_not_inert {o b c : List Char} (h : Encloses o b c) :
    ∃ x xs, o = x :: xs ∧ ¬ Inert x := by
  cases h with
  | enclosed kind => cases kind <;> exact ⟨_, _, rfl, by decide⟩
  | line ho => rcases ho with rfl | rfl <;> exact ⟨_, _, rfl, by decide⟩

namespace Literal

theorem mayStartLiteral_of_starts {prev : Option Char} {o : Opening} (ho : o.Starts prev) :
    ∃ x mark, o.mark = x :: mark ∧ Piece.mayStartLiteral x = true := by
  rcases o with kind | mark
  · cases kind <;> exact ⟨_, _, rfl, rfl⟩
  · rcases ho with rfl | rfl <;> exact ⟨_, _, rfl, rfl⟩

end Literal

/-- A literal or comment at the front is read as one piece. -/
theorem Piece.read_of_starts {prev : Option Char} {o : Literal.Opening}
    {body passed rest : List Char} (ho : o.Starts prev) (hp : o.pass body = .ok (passed, rest)) :
    ∃ x xs, x ≠ '{' ∧ x ≠ '}' ∧ o.mark ++ body = x :: xs ∧
      read prev x xs = .ok (.passed passed, rest) := by
  obtain ⟨x, mark, hmark, hx⟩ := Literal.mayStartLiteral_of_starts ho
  have hopening : Literal.opening? prev (o.mark ++ body) = some (o, body) :=
    Literal.opening?_eq_some_iff.2 ⟨rfl, ho⟩
  refine ⟨x, mark ++ body, ?_, ?_, by rw [hmark]; rfl, ?_⟩
  · rintro rfl
    cases hx
  · rintro rfl
    cases hx
  · rw [hmark, List.cons_append] at hopening
    rw [read, if_pos hx, Literal.skip, hopening]
    simp only [hp]

/-- What comes of a text with `out` written for the text `src` in front of it. -/
def ahead (src out : List Char) : Except Fault (List Char) → Except Fault (List Char)
  | .ok tail => .ok (out ++ tail)
  | .error f => .error (f.behind src)

theorem ahead_ahead (src src' out out' : List Char) (r : Except Fault (List Char)) :
    ahead src out (ahead src' out' r) = ahead (src ++ src') (out ++ out') r := by
  cases r with
  | ok tail => exact congrArg Except.ok (List.append_assoc out out' tail).symm
  | error f => exact congrArg Except.error (f.behind_behind src src')

theorem map_prefixed (is : List Item) (r : Except Fault (List Item)) :
    (prefixed is r).map (List.flatMap Item.output) =
      ahead (is.flatMap Item.source) (is.flatMap Item.output)
        (r.map (List.flatMap Item.output)) := by
  cases r with
  | ok js => exact congrArg Except.ok List.flatMap_append
  | error f => rfl

/-- What is written for the text behind `prev`, outside native literals. -/
def writtenOutside (level : Nat) (prev : Option Char) (cs : List Char) :
    Except Fault (List Char) :=
  (readFrom level prev cs).map (List.flatMap Item.output)

/-- What is written for the text behind `prev`, from inside a native literal on. -/
def writtenInside (level : Nat) (prev : Option Char) (cs : List Char) :
    Except Fault (List Char) :=
  match Item.readBody prev cs with
  | .error f => .error f
  | .ok (body, rest) =>
    ahead (body.flatMap Piece.text ++ ['}']) (body.flatMap Piece.text ++ ['}'])
      (writtenOutside level (some '}') rest)

/-- What is written for the text behind `prev` from the head of a loop on. -/
def written : Point → Nat → Option Char → List Char → Except Fault (List Char)
  | .native => writtenInside
  | _ => writtenOutside

section Written

variable {p : Point} {level : Nat} {prev : Option Char} {c : Char} {cs rest : List Char}

theorem written_piece {q : Piece} (ho : c ≠ '{') (hc : c ≠ '}')
    (hq : Piece.read prev c cs = .ok (q, rest)) :
    written p level prev (c :: cs) =
      ahead q.text q.text (written p level q.text.getLast? rest) := by
  have houtside : writtenOutside level prev (c :: cs) =
      ahead q.text q.text (writtenOutside level q.text.getLast? rest) := by
    have hread := Item.read_eq_ok_iff.2 (.piece ho hc hq)
    rw [writtenOutside, readFrom_of_ok hread rfl, map_prefixed, List.flatMap_singleton,
      List.flatMap_singleton]
    rfl
  cases p with
  | native =>
    show writtenInside level prev (c :: cs) =
      ahead q.text q.text (writtenInside level q.text.getLast? rest)
    rw [writtenInside, writtenInside, Item.readBody_of_ok hc hq]
    cases Item.readBody q.text.getLast? rest with
    | error f => rfl
    | ok answer =>
      dsimp only
      rw [ahead_ahead, List.flatMap_cons, List.append_assoc]
  | _ => exact houtside

/-- A literal or comment comes through, and what is written behind depends on the rest. -/
theorem written_encloses {o b e s : List Char} (h : Encloses o b e)
    (hdollars : o = ['$', '$'] → prev.all isBlank = true) :
    written p level prev (o ++ b ++ e ++ s) =
      ahead (o ++ b ++ e) (o ++ b ++ e) (written p level e.getLast? s) := by
  cases h with
  | enclosed kind hb =>
    have hstarts : (Literal.Opening.enclosed kind).Starts prev := by
      cases kind with
      | dollarQuoted => exact hdollars rfl
      | _ => trivial
    have hpass : (Literal.Opening.enclosed kind).pass (b ++ kind.closer ++ s) =
        .ok (kind.opener ++ (b ++ kind.closer), s) := by
      rw [Literal.Opening.pass, splitAfter_of_first hb]
    obtain ⟨x, xs, hx, hx', hcs, hread⟩ := Piece.read_of_starts hstarts hpass
    have hlast : (kind.opener ++ (b ++ kind.closer)).getLast? = kind.closer.getLast? := by
      rw [← List.append_assoc]
      exact List.getLast?_append_of_ne_nil _ (by cases kind <;> exact List.cons_ne_nil _ _)
    have hpiece := @written_piece p level prev x xs s _ hx hx' hread
    rw [← hcs, Piece.text, hlast, Literal.Opening.mark] at hpiece
    simpa only [List.append_assoc] using hpiece
  | @line _ _ e ho he hb =>
    have hinert : Inert e := by
      rw [isLineEnd, Bool.or_eq_true, beq_iff_eq, beq_iff_eq] at he
      rcases he with rfl | rfl <;> decide
    have hline : lineRest (e :: s) = [] := List.takeWhile_cons_of_neg (by simp [he])
    have hpass : (Literal.Opening.lineComment o).pass (b ++ e :: s) = .ok (o ++ b, e :: s) := by
      rw [Literal.Opening.pass, lineRest_append hb hline, dropLine_append hb hline]
    have hstarts : (Literal.Opening.lineComment o).Starts prev := ho
    obtain ⟨x, xs, hx, hx', hcs, hread⟩ := Piece.read_of_starts hstarts hpass
    have hpiece := @written_piece p level prev x xs _ _ hx hx' hread
    have hrest := @written_piece p level (o ++ b).getLast? e s s _ (inert_iff.1 hinert).2.1
      (inert_iff.1 hinert).2.2 (Piece.read_of_inert hinert _ s)
    rw [← hcs, Piece.text, hrest, ahead_ahead] at hpiece
    simpa [Literal.Opening.mark, Piece.text] using hpiece

/-- What is written for a native literal that has been read in part. -/
theorem writtenOutside_native {gap ds : List Char} {d : Char} {body : List Piece}
    (hg : IsGap gap) (hd : d.isDigit = true)
    (hb : Item.PassesBody ('{' :: gap).getLast? (d :: ds) body rest) :
    writtenOutside level prev ('{' :: (gap ++ d :: ds)) =
      ahead ('{' :: gap ++ body.flatMap Piece.text) ('{' :: gap ++ body.flatMap Piece.text)
        (writtenInside level ((body.flatMap Piece.text).getLast?.or ('{' :: gap).getLast?)
          rest) := by
  have hread := hb.readBody_eq
  rw [writtenInside]
  cases hr : Item.readBody ((body.flatMap Piece.text).getLast?.or ('{' :: gap).getLast?) rest with
  | error f =>
    rw [hr, Item.prefixedBody] at hread
    have hitem : Item.read prev '{' (gap ++ d :: ds) = _ :=
      Item.read_eq_error_iff.2 (.native hg hd hread)
    rw [writtenOutside, readFrom_of_error hitem, Fault.behind_behind]
    rfl
  | ok answer =>
    obtain ⟨tail, after⟩ := answer
    rw [hr, Item.prefixedBody] at hread
    have hitem : Item.read prev '{' (gap ++ d :: ds) = _ :=
      Item.read_eq_ok_iff.2 (.native hg hd hread)
    have hlast : (Item.native gap (body ++ tail)).source.getLast? = some '}' :=
      List.getLast?_append_of_ne_nil _ (List.cons_ne_nil _ _)
    rw [writtenOutside, readFrom_of_ok hitem rfl, map_prefixed, hlast, ahead_ahead,
      writtenOutside]
    simp [Item.source, Item.output]

end Written

/-- Pieces of a native literal are read again in front of a rest that begins alike. -/
theorem Item.PassesBody.replace {prev : Option Char} {cs rest rest' : List Char}
    {ps : List Piece} (h : PassesBody prev cs ps rest) (hr : rest'.head? = rest.head?) :
    PassesBody prev (ps.flatMap Piece.text ++ rest') ps rest' := by
  induction h with
  | nil prev => exact .nil prev rest'
  | @cons prev c cs mid rest p ps hc hp hps ih =>
    have hmid := hps.eq_append
    have hsame : (ps.flatMap Piece.text ++ rest').head? = mid.head? := by
      rw [hmid]
      cases ps.flatMap Piece.text with
      | nil => exact hr
      | cons x xs => rfl
    obtain ⟨cs', hcs, hread⟩ := Piece.read_replace hp (fun _ => rfl) (.of_head?_eq hsame)
    rw [List.flatMap_cons, List.append_assoc, hcs]
    exact .cons hc hread (ih hr)

/-- Behind items what is written depends on the rest, if it goes on with the same character
that is not inert. -/
theorem writtenOutside_of_passes {cs xs : List Char} {x : Char} {is : List Item} {level : Nat}
    (hp : Reading.Passes none cs is (x :: xs)) (hl : Nesting.levelBehind 0 is = .ok level)
    (hx : ¬ Inert x) (xs' : List Char) :
    writtenOutside 0 none (is.flatMap Item.source ++ x :: xs') =
      ahead (is.flatMap Item.source) (is.flatMap Item.output)
        (writtenOutside level (is.flatMap Item.source).getLast? (x :: xs')) := by
  have hp' := hp.replace (fun _ => rfl) (Item.replaces_of_not_inert hx xs xs')
    fun _ _ _ => List.cons_ne_nil x xs
  rw [writtenOutside, readFrom_of_passes hp' hl, map_prefixed, Option.or_none]
  rfl

/-- The digit that a native literal begins with has been read where a character follows that
is not inert. -/
theorem Item.PassesBody.exists_text_eq {prev : Option Char} {d x : Char} {ds xs : List Char}
    {ps : List Piece} (h : PassesBody prev (d :: ds) ps (x :: xs)) (hd : d.isDigit = true)
    (hx : ¬ Inert x) : ∃ ys, ps.flatMap Piece.text = d :: ys := by
  have happend := h.eq_append
  cases hps : ps.flatMap Piece.text with
  | nil =>
    rw [hps] at happend
    obtain ⟨rfl, -⟩ := List.cons.inj happend
    have hall : specials.all fun x => !x.isDigit := by decide
    have hno := List.all_eq_true.1 hall d (Decidable.not_not.1 hx)
    rw [hd] at hno
    cases hno
  | cons y ys =>
    rw [hps] at happend
    obtain ⟨rfl, -⟩ := List.cons.inj happend
    exact ⟨ys, rfl⟩

/-- Where a run comes to a character that is not inert, what is written before it does not
depend on what follows it. -/
theorem Rewriter.Follows.exists_written {p xs : List Char} {x : Char} {r : Rewriter}
    {js : List Span} (h : Follows (p ++ x :: xs) r js) (hloop : r.point.isLoop = true)
    (hpos : r.cursor.pos = byteLength p) (hx : ¬ Inert x) :
    ∃ level q, byteLength q = byteLength p ∧ ∀ xs',
      writtenOutside 0 none (p ++ x :: xs') =
        ahead p q (written r.point level p.getLast? (x :: xs')) := by
  cases h with
  | opened => cases hloop
  | binding => cases hloop
  | word => cases hloop
  | @scan is out done kept after level hp hl hs =>
    have hplace : byteLength p = byteLength (is.flatMap Item.source) := by
      rw [← hpos, ← hs]
      rfl
    obtain ⟨rfl, rfl⟩ := append_inj_byteLength hp.eq_append hplace
    exact ⟨level, is.flatMap Item.output, hp.byteLength_output, writtenOutside_of_passes hp hl hx⟩
  | @native is out done kept gap after ds d body level hp hl hg hd hb hs =>
    have hplace : byteLength p =
        byteLength (is.flatMap Item.source ++ '{' :: gap ++ body.flatMap Piece.text) := by
      rw [← hpos, ← hs]
      rfl
    have hsplit : p ++ x :: xs =
        is.flatMap Item.source ++ '{' :: gap ++ body.flatMap Piece.text ++ after := by
      rw [hp.eq_append, hb.eq_append]
      simp
    obtain ⟨rfl, rfl⟩ := append_inj_byteLength hsplit hplace
    refine ⟨level, is.flatMap Item.output ++ '{' :: gap ++ body.flatMap Piece.text, ?_,
      fun xs' => ?_⟩
    · simp only [byteLength_append, hp.byteLength_output]
    obtain ⟨ys, hys⟩ := hb.exists_text_eq hd hx
    have hb' := @Item.PassesBody.replace _ _ _ (x :: xs') _ hb rfl
    rw [hys, List.cons_append] at hb'
    have hnative := @writtenOutside_native level (is.flatMap Item.source).getLast? (x :: xs') gap
      (ys ++ x :: xs') d body hg hd hb'
    have hlast : (is.flatMap Item.source ++ '{' :: gap ++ body.flatMap Piece.text).getLast? =
        (body.flatMap Piece.text).getLast?.or ('{' :: gap).getLast? := by
      rw [List.getLast?_append, List.getLast?_append_of_ne_nil _ (List.cons_ne_nil '{' gap)]
    have hitems := writtenOutside_of_passes hp hl (by decide) (gap ++ d :: (ys ++ x :: xs'))
    rw [hnative, ahead_ahead, ← hlast] at hitems
    show _ = ahead _ _ (writtenInside level _ (x :: xs'))
    simpa [hys] using hitems

section Contents

variable {sql : String} {out : List Char}

/-- The native text of a statement is what is written for it. -/
theorem nativeText_text_iff_written (hb : '{' ∈ sql.toList) :
    (∃ t, nativeText sql true = .ok t ∧ t.text.toList = out) ↔
      writtenOutside 0 none sql.toList = .ok out := by
  rw [nativeText_text_iff hb, writtenOutside, ← readStatement_eq]
  cases readStatement sql.toList <;> simp [Except.map]

theorem nativeText_eq_error_iff_written {e : StatementError} (hb : '{' ∈ sql.toList) :
    nativeText sql true = .error e ↔
      ∃ f, writtenOutside 0 none sql.toList = .error f ∧ e = f.error := by
  rw [nativeText_eq_error_iff, writtenOutside, ← readStatement_eq]
  cases readStatement sql.toList <;> simp [Except.map, hb]

theorem nativeText_ne_error_of_written {e : StatementError} (hb : '{' ∈ sql.toList)
    (hw : writtenOutside 0 none sql.toList = .ok out) : nativeText sql true ≠ .error e := by
  rw [Ne, nativeText_eq_error_iff_written hb, hw]
  rintro ⟨f, ⟨⟩, -⟩

theorem nativeText_ne_ok_of_written {f : Fault} {t : NativeText} (hb : '{' ∈ sql.toList)
    (hw : writtenOutside 0 none sql.toList = .error f) : nativeText sql true ≠ .ok t := by
  intro ht
  have hout := (nativeText_text_iff_written hb).1 ⟨t, ht, rfl⟩
  rw [hw] at hout
  cases hout

variable {p q o b c : List Char}

/-- Where contents are written as they stand, the text in front of them and behind them is told
by the byte length of the former. -/
theorem nativeText_text_iff_of_written {tail p' s' : List Char} (hb : '{' ∈ sql.toList)
    (hw : writtenOutside 0 none sql.toList = .ok (q ++ o ++ b ++ c ++ tail))
    (hlength : byteLength p' = byteLength q) :
    (∃ t, nativeText sql true = .ok t ∧ t.text.toList = p' ++ o ++ b ++ c ++ s') ↔
      q = p' ∧ tail = s' := by
  rw [nativeText_text_iff_written hb, hw]
  constructor
  · intro h
    have hfronts : byteLength (q ++ o ++ b ++ c) = byteLength (p' ++ o ++ b ++ c) := by
      simp only [byteLength_append, hlength]
    obtain ⟨hfront, rfl⟩ := append_inj_byteLength (Except.ok.inj h) hfronts
    simp only [List.append_assoc] at hfront
    exact ⟨List.append_cancel_right hfront, rfl⟩
  · rintro ⟨rfl, rfl⟩
    rfl

/-- A fault behind contents stands as much farther on as they are long. -/
theorem nativeText_eq_error_iff_of_written {f : Fault} {e : StatementError}
    (hb : '{' ∈ sql.toList)
    (hw : writtenOutside 0 none sql.toList = .error (f.behind (p ++ o ++ b ++ c))) :
    nativeText sql true = .error e ↔
      e = .malformed f.problem
        (.point (byteLength b + (byteLength (p ++ o ++ c) + byteLength f.before)))
        (b.length + ((p ++ o ++ c).length + f.before.length)) := by
  have hbytes : byteLength (p ++ o ++ b ++ c) + byteLength f.before =
      byteLength b + (byteLength (p ++ o ++ c) + byteLength f.before) := by
    simp only [byteLength_append]
    omega
  have hcount : (p ++ o ++ b ++ c).length + f.before.length =
      b.length + ((p ++ o ++ c).length + f.before.length) := by
    simp only [List.length_append]
    omega
  rw [← hbytes, ← hcount, ← Fault.error_behind, nativeText_eq_error_iff_written hb, hw]
  simp

end Contents

/-- What a literal or comment is written with is decided without its contents. -/
theorem exists_written_contents {sql₁ sql₂ : String} {p o b₁ b₂ c s : List Char} {r : Rewriter}
    (h₁ : sql₁.toList = p ++ o ++ b₁ ++ c ++ s) (h₂ : sql₂.toList = p ++ o ++ b₂ ++ c ++ s)
    (he₁ : Encloses o b₁ c) (he₂ : Encloses o b₂ c) (hr : Rewriter.Reaches (.start sql₁) r)
    (hloop : r.point.isLoop = true) (hpos : r.cursor.pos = byteLength p)
    (hopen : (Literal.opening? p.getLast? (o ++ b₁ ++ c ++ s)).isSome) :
    ∃ q rest, byteLength q = byteLength p ∧
      writtenOutside 0 none sql₁.toList = ahead (p ++ o ++ b₁ ++ c) (q ++ o ++ b₁ ++ c) rest ∧
      writtenOutside 0 none sql₂.toList = ahead (p ++ o ++ b₂ ++ c) (q ++ o ++ b₂ ++ c) rest := by
  have hdollars : o = ['$', '$'] → p.getLast?.all isBlank = true := by
    rw [List.append_assoc, List.append_assoc] at hopen
    exact he₁.isSome_opening?_iff.1 hopen
  obtain ⟨js, hfollows⟩ := (Rewriter.follows_start sql₁).of_reaches hr
  obtain ⟨x, xs, ho, hx⟩ := he₁.exists_not_inert
  have hsplit (b : List Char) :
      p ++ o ++ b ++ c ++ s = p ++ x :: (xs ++ b ++ c ++ s) := by
    simp only [ho, List.append_assoc, List.cons_append]
  rw [h₁, hsplit] at hfollows
  obtain ⟨level, q, hq, hwritten⟩ := hfollows.exists_written hloop hpos hx
  have hcontents {b : List Char} (he : Encloses o b c) :
      writtenOutside 0 none (p ++ o ++ b ++ c ++ s) =
        ahead (p ++ o ++ b ++ c) (q ++ o ++ b ++ c) (written r.point level c.getLast? s) := by
    have hliteral := @written_encloses r.point level p.getLast? o b c s he hdollars
    have hb := hwritten (xs ++ b ++ c ++ s)
    rw [show x :: (xs ++ b ++ c ++ s) = o ++ b ++ c ++ s by simp [ho], hliteral, ahead_ahead] at hb
    simpa only [List.append_assoc] using hb
  exact ⟨q, _, hq, h₁ ▸ hcontents he₁, h₂ ▸ hcontents he₂⟩

/-- With other contents of a literal or comment that a run comes to, a statement succeeds or
fails alike. Its native text differs in these contents only, and its error stands as much
farther on as they are longer, in bytes and in characters. -/
theorem nativeText_of_other_contents {sql₁ sql₂ : String} {p o b₁ b₂ c s : List Char}
    {r : Rewriter} (h₁ : sql₁.toList = p ++ o ++ b₁ ++ c ++ s)
    (h₂ : sql₂.toList = p ++ o ++ b₂ ++ c ++ s) (hbrace₁ : '{' ∈ sql₁.toList)
    (hbrace₂ : '{' ∈ sql₂.toList) (he₁ : Encloses o b₁ c) (he₂ : Encloses o b₂ c)
    (hr : Rewriter.Reaches (.start sql₁) r) (hloop : r.point.isLoop = true)
    (hpos : r.cursor.pos = byteLength p)
    (hopen : (Literal.opening? p.getLast? (o ++ b₁ ++ c ++ s)).isSome) :
    (∀ t₁, nativeText sql₁ true = .ok t₁ →
        ∃ p' s', byteLength p' = byteLength p ∧ t₁.text.toList = p' ++ o ++ b₁ ++ c ++ s') ∧
      (∀ p' s', byteLength p' = byteLength p →
        ((∃ t₁, nativeText sql₁ true = .ok t₁ ∧ t₁.text.toList = p' ++ o ++ b₁ ++ c ++ s') ↔
          ∃ t₂, nativeText sql₂ true = .ok t₂ ∧ t₂.text.toList = p' ++ o ++ b₂ ++ c ++ s')) ∧
      ((∃ e₁, nativeText sql₁ true = .error e₁) ↔ ∃ e₂, nativeText sql₂ true = .error e₂) ∧
      ∀ e₁ e₂, nativeText sql₁ true = .error e₁ → nativeText sql₂ true = .error e₂ →
        ∃ problem pos offset,
          e₁ = .malformed problem (.point (byteLength b₁ + pos)) (b₁.length + offset) ∧
            e₂ = .malformed problem (.point (byteLength b₂ + pos)) (b₂.length + offset) := by
  obtain ⟨q, rest, hq, hw₁, hw₂⟩ :=
    exists_written_contents h₁ h₂ he₁ he₂ hr hloop hpos hopen
  cases rest with
  | ok tail =>
    refine ⟨fun t₁ ht => ⟨q, tail, hq, ?_⟩, fun p' s' hp' => ?_, ?_, fun e₁ _ he => ?_⟩
    · have hout := (nativeText_text_iff_written hbrace₁).1 ⟨t₁, ht, rfl⟩
      exact (Except.ok.inj (hw₁.symm.trans hout)).symm
    · have hlength := hp'.trans hq.symm
      rw [nativeText_text_iff_of_written hbrace₁ hw₁ hlength,
        nativeText_text_iff_of_written hbrace₂ hw₂ hlength]
    · exact iff_of_false (fun ⟨_, he⟩ => nativeText_ne_error_of_written hbrace₁ hw₁ he)
        fun ⟨_, he⟩ => nativeText_ne_error_of_written hbrace₂ hw₂ he
    · exact absurd he (nativeText_ne_error_of_written hbrace₁ hw₁)
  | error f =>
    have herror₁ {e : StatementError} :=
      nativeText_eq_error_iff_of_written (e := e) hbrace₁ hw₁
    have herror₂ {e : StatementError} :=
      nativeText_eq_error_iff_of_written (e := e) hbrace₂ hw₂
    refine ⟨fun t₁ ht => ?_, fun p' s' _ => ?_, ?_, fun e₁ e₂ h₁ h₂ => ?_⟩
    · exact absurd ht (nativeText_ne_ok_of_written hbrace₁ hw₁)
    · exact iff_of_false (fun ⟨_, ht, _⟩ => nativeText_ne_ok_of_written hbrace₁ hw₁ ht)
        fun ⟨_, ht, _⟩ => nativeText_ne_ok_of_written hbrace₂ hw₂ ht
    · exact iff_of_true ⟨_, herror₁.2 rfl⟩ ⟨_, herror₂.2 rfl⟩
    · exact ⟨f.problem, _, _, herror₁.1 h₁, herror₂.1 h₂⟩

/-- In a comment a brace opens nothing. -/
theorem nativeText_of_other_contents_comment :
    nativeText "{fn /*x*/ y}" true = .ok (.built "    /*x*/ y ") ∧
      ∃ t, nativeText "\x7bfn /*\x7b? = -*/ y\x7d" true = .ok t ∧
        t.text.toList = "    /*\x7b? = -*/ y ".toList := by
  have h : nativeText "{fn /*x*/ y}" true = .ok (.built "    /*x*/ y ") := by decide +kernel
  refine ⟨h, ?_⟩
  have hreaches : Rewriter.Reaches (.start "{fn /*x*/ y}")
      ⟨.scan, ⟨"{fn /*x*/ y}", 4⟩, some "   ".toList, 3, 1⟩ := ⟨4, by decide +kernel⟩
  have hsame := @nativeText_of_other_contents "{fn /*x*/ y}" "\x7bfn /*\x7b? = -*/ y\x7d"
    "\x7bfn ".toList "/*".toList "x".toList "\x7b? = -".toList "*/".toList " y\x7d".toList _
    (by decide) (by decide) (by decide) (by decide)
    (.enclosed .blockComment (first_of_not_mem (by decide) (by decide)))
    (.enclosed .blockComment (first_of_not_mem (by decide) (by decide)))
    hreaches rfl (by decide) (by decide)
  exact (hsame.2.1 "    ".toList " y ".toList (by decide)).1 ⟨_, h, by decide⟩

end EscapeClause
