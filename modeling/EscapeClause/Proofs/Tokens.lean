import EscapeClause.Proofs.Grammar
import EscapeClause.Proofs.Reading
import Mathlib.Data.List.Basic

/-! The items of a reading, split into tokens, are the one sequence of tokens that the
grammar allows. Main statement: `reads_iff`. -/

namespace EscapeClause

open Text Grammar

/-- The tokens of an item. Behind the gap of an opening every character is on its own. -/
def Item.tokens : Item → List Token
  | piece (.passed cs) => [.stretch cs]
  | piece (.plain c) => [.plain c]
  | native gap body => [.native gap (body.flatMap Piece.text)]
  | opening gap binding marker =>
    .opening gap :: (binding.elim [] Binding.source ++ marker).map .plain
  | closing => [.closing]

namespace Grammar

theorem text_map_plain (cs : List Char) : text (cs.map .plain) = cs := by
  induction cs with
  | nil => rfl
  | cons c cs ih => rw [List.map_cons, text_cons, ih]; rfl

@[simp] theorem text_tokens (i : Item) : text i.tokens = i.source := by
  cases i with
  | piece p => cases p <;> exact List.append_nil _
  | native gap body => exact List.append_nil _
  | opening gap binding marker =>
    rw [Item.tokens, text_cons, text_map_plain, Item.source, List.append_assoc]
    rfl
  | closing => rfl

theorem text_flatMap_tokens (is : List Item) :
    text (is.flatMap Item.tokens) = is.flatMap Item.source := by
  induction is with
  | nil => rfl
  | cons i is ih => rw [List.flatMap_cons, text_append, text_tokens, ih, List.flatMap_cons]

theorem reads_inert {xs : List Char} (hx : ∀ c ∈ xs, Inert c) (before rest : List Char) :
    Reads before (xs ++ rest) (xs.map .plain) rest := by
  induction xs generalizing before with
  | nil => exact .done before rest
  | cons c xs ih =>
    have hc := inert_iff.1 (hx c List.mem_cons_self)
    exact .token (t := .plain c) hc (ih (fun d hd => hx d (List.mem_cons_of_mem c hd)) _)

/-- Only an inert character begins with itself as a token. -/
theorem eq_plain_of_stands {before mid cs : List Char} {c : Char} {t : Token} (hc : Inert c)
    (ht : t.Stands before mid) (h : t.text ++ mid = c :: cs) : t = .plain c ∧ mid = cs := by
  obtain ⟨hm, ho, hcl⟩ := inert_iff.1 hc
  cases t with
  | stretch xs =>
    obtain ⟨x, tail, hx, hxm, -⟩ := stretch_iff.1 ht
    obtain ⟨rfl, -⟩ := List.cons.inj (hx.symm.trans h)
    rw [hm] at hxm
    cases hxm
  | native gap body => exact absurd (List.cons.inj h).1.symm ho
  | opening gap => exact absurd (List.cons.inj h).1.symm ho
  | closing => exact absurd (List.cons.inj h).1.symm hcl
  | plain d =>
    obtain ⟨rfl, rfl⟩ := List.cons.inj h
    exact ⟨rfl, rfl⟩

/-- A reading passes over inert characters one by one. -/
theorem reads_inert_append {xs before cs : List Char} {ts : List Token}
    (hx : ∀ c ∈ xs, Inert c) (h : Reads before (xs ++ cs) ts []) :
    ∃ us, ts = xs.map .plain ++ us ∧ Reads (before ++ xs) cs us [] := by
  induction xs generalizing before ts with
  | nil => exact ⟨ts, rfl, by rwa [List.append_nil]⟩
  | cons c xs ih =>
    generalize hcs : c :: xs ++ cs = text at h
    cases h with
    | done => cases hcs
    | token ht hr =>
      obtain ⟨rfl, rfl⟩ := eq_plain_of_stands (hx c List.mem_cons_self) ht hcs.symm
      obtain ⟨us, rfl, hus⟩ := ih (fun d hd => hx d (List.mem_cons_of_mem c hd)) hr
      exact ⟨us, rfl, by rwa [List.append_assoc] at hus⟩

/-- A piece is a stretch or a single character. -/
theorem stretch_of_read {before : List Char} {c : Char} {cs rest : List Char} {p : Piece}
    (h : Piece.read before.getLast? c cs = .ok (p, rest)) :
    p = .passed p.text ∧ Stretch before p.text rest ∨
      p = .plain c ∧ rest = cs ∧ Piece.mayStartLiteral c = false := by
  unfold Piece.read at h
  split at h
  · next hm =>
    split at h
    · next text after hs =>
      cases h
      exact .inl ⟨rfl, stretch_iff.2 ⟨c, cs, (Literal.append_of_skip hs).symm, hm, hs⟩⟩
    · cases h
  · next hm =>
    cases h
    exact .inr ⟨rfl, rfl, by simpa using hm⟩

/-- Reading the body of a native literal is what the grammar says. -/
theorem body_of_readBody {before cs rest : List Char} {body : List Piece}
    (h : Item.readBody before.getLast? cs = .ok (body, rest)) :
    Body rest before (body.flatMap Piece.text) := by
  generalize hp : before.getLast? = prev at h
  fun_induction Item.readBody prev cs generalizing before body with
  | case1 => cases h
  | case2 => cases h; exact .nil before
  | case3 => cases h
  | case4 => cases h
  | case5 prev c cs hc p after hpc _ tail after' hb ih =>
    cases h
    subst hp
    have hne := Piece.text_ne_nil_of_read hpc
    have hrest := ih (List.getLast?_append_of_ne_nil before hne) hb
    rw [List.flatMap_cons]
    rcases stretch_of_read hpc with ⟨-, hs⟩ | ⟨rfl, -, hm⟩
    · rw [Item.append_of_readBody hb] at hs
      exact .stretch hs hrest
    · exact .plain hc hm hrest

theorem readBody_of_body {before body rest : List Char} (h : Body rest before body) :
    ∃ ps, Item.readBody before.getLast? (body ++ '}' :: rest) = .ok (ps, rest) ∧
      ps.flatMap Piece.text = body := by
  induction h with
  | nil before => exact ⟨[], Item.readBody_closing _ _, rfl⟩
  | @stretch before cs body hs _ ih =>
    obtain ⟨ps, hps, rfl⟩ := ih
    obtain ⟨c, tail, hcs, hm, hskip⟩ := stretch_iff.1 hs
    have hne : cs ≠ [] := Literal.passed_ne_nil_of_skip hskip (List.cons_ne_nil c tail)
    have hread : Piece.read before.getLast? c tail =
        .ok (.passed cs, ps.flatMap Piece.text ++ '}' :: rest) := by
      rw [Piece.read, if_pos hm, hskip]
    have hc : c ≠ '}' := by
      rintro rfl
      cases hm
    refine ⟨.passed cs :: ps, ?_, List.flatMap_cons⟩
    rw [List.append_assoc, hcs, Item.readBody_of_ok hc hread]
    rw [List.getLast?_append_of_ne_nil before hne] at hps
    rw [Piece.text, hps]
  | @plain before body c hc hm _ ih =>
    obtain ⟨ps, hps, rfl⟩ := ih
    have hread (cs : List Char) : Piece.read before.getLast? c cs = .ok (.plain c, cs) := by
      rw [Piece.read, hm]
      rfl
    refine ⟨.plain c :: ps, ?_, List.flatMap_cons⟩
    rw [List.cons_append, Item.readBody_of_ok hc (hread _)]
    rw [List.getLast?_append_of_ne_nil before (List.cons_ne_nil c [])] at hps
    rw [Piece.text, hps]

/-- What the grammar asks of an opening brace is what reading its clause needs. -/
theorem stands_opening_iff {before gap mid : List Char} :
    (Token.opening gap).Stands before mid ↔
      ∃ binding tail, mid = binding.elim [] Binding.source ++ tail ∧
        Item.Opened gap binding tail := by
  constructor
  · rintro ⟨hg, c, after, rfl, hb, hd, hq⟩
    by_cases hc : c = '?'
    · obtain ⟨gap₁, bound, rfl, h₁⟩ := hq hc
      subst hc
      refine ⟨some ⟨gap₁, Text.gap bound⟩, dropGap bound, ?_, .bound_gap gap bound hg h₁⟩
      rw [Option.elim_some, Binding.source_append, gap_append_dropGap]
    · exact ⟨none, c :: after, rfl, .clause hg hb hd hc⟩
  · rintro ⟨binding, tail, rfl, ho⟩
    cases ho with
    | clause hg hb hd hq => exact ⟨hg, _, _, rfl, hb, hd, fun h => absurd h hq⟩
    | @bound _ b hg h₁ h₂ ht =>
      have hafter : b.gap ++ '=' :: b.gapAfter ++ tail = b.gap ++ '=' :: (b.gapAfter ++ tail) := by
        simp only [List.append_assoc, List.cons_append]
      exact ⟨hg, '?', _, rfl, by decide, by decide, fun _ => ⟨b.gap, _, hafter, h₁⟩⟩

theorem reads_tokens {before cs rest : List Char} {c : Char} {i : Item}
    (h : Item.read before.getLast? c cs = .ok (i, rest)) :
    Reads before (c :: cs) i.tokens rest := by
  have hsingle {t : Token} (ht : t.Stands before rest) (hcs : c :: cs = t.text ++ rest) :
      Reads before (c :: cs) [t] rest := by
    rw [hcs]
    exact .token ht (.done _ _)
  have hcs := Item.append_of_read h
  cases Item.read_eq_ok_iff.1 h with
  | piece ho hc hp =>
    rcases stretch_of_read hp with ⟨hpiece, hs⟩ | ⟨rfl, rfl, hm⟩
    · rw [hpiece]
      exact hsingle hs hcs
    · exact hsingle ⟨hm, ho, hc⟩ hcs
  | closing => exact hsingle trivial hcs
  | @native gap ds _ d body hg hd hb =>
    obtain ⟨xs, hxs⟩ := Item.flatMap_text_of_isDigit hd hb
    have hbody : Body rest (before ++ '{' :: gap) (body.flatMap Piece.text) := by
      apply body_of_readBody
      rwa [List.getLast?_append_of_ne_nil before (List.cons_ne_nil _ _)]
    exact hsingle ⟨hg, ⟨d, by rw [hxs]; rfl, hd⟩, hbody⟩ hcs
  | @opening gap tail _ binding ho ht =>
    have hmid : binding.elim [] Binding.source ++ tail =
        (binding.elim [] Binding.source ++ Item.marker tail) ++ rest := by
      rw [List.append_assoc, ← ht]
    rw [← List.cons_append]
    refine .token (t := .opening gap) (stands_opening_iff.2 ⟨binding, tail, rfl, ho⟩) ?_
    rw [hmid]
    exact reads_inert (fun x hx => Item.inert_of_mem_head ho hx) _ _

/-- The token at a place decides the item there. The item has more tokens only behind an
opening, and these are inert characters. -/
theorem read_of_stands {before mid cs : List Char} {c : Char} {t : Token}
    (ht : t.Stands before mid) (hcs : t.text ++ mid = c :: cs) :
    ∃ i xs rest, Item.read before.getLast? c cs = .ok (i, rest) ∧
      i.tokens = t :: xs.map .plain ∧ (∀ x ∈ xs, Inert x) ∧ mid = xs ++ rest := by
  have hnil : ∀ x ∈ ([] : List Char), Inert x := List.forall_mem_nil _
  cases t with
  | stretch text =>
    obtain ⟨d, tail, hd, hm, hs⟩ := stretch_iff.1 ht
    obtain ⟨rfl, rfl⟩ := List.cons.inj (hd.symm.trans hcs)
    have hp : Piece.read before.getLast? d tail = .ok (.passed text, mid) := by
      rw [Piece.read, if_pos hm, hs]
    have hread := Item.read_eq_ok_iff.2
      (.piece (by rintro rfl; cases hm) (by rintro rfl; cases hm) hp)
    exact ⟨_, [], mid, hread, rfl, hnil, rfl⟩
  | native gap body =>
    obtain ⟨hg, ⟨d, hd, hdigit⟩, hbody⟩ := ht
    obtain ⟨ps, hps, hflat⟩ := readBody_of_body hbody
    obtain ⟨ds, rfl⟩ := List.head?_eq_some_iff.1 hd
    rw [List.getLast?_append_of_ne_nil before (List.cons_ne_nil _ _)] at hps
    obtain ⟨rfl, hcs'⟩ := List.cons.inj hcs
    have hsame : cs = gap ++ d :: (ds ++ '}' :: mid) := by
      rw [← hcs']
      simp
    rw [hsame]
    exact ⟨.native gap ps, [], mid, Item.read_eq_ok_iff.2 (.native hg hdigit hps),
      by rw [Item.tokens, hflat]; rfl, hnil, rfl⟩
  | opening gap =>
    obtain ⟨binding, tail, rfl, ho⟩ := stands_opening_iff.1 ht
    obtain ⟨rfl, rfl⟩ := List.cons.inj hcs
    refine ⟨.opening gap binding (Item.marker tail), binding.elim [] Binding.source ++
      Item.marker tail, tail.drop (Item.markerLength tail),
      Item.read_eq_ok_iff.2 (.opening ho (Item.marker_append_drop tail).symm), rfl,
      fun x hx => Item.inert_of_mem_head ho hx, ?_⟩
    rw [List.append_assoc, Item.marker_append_drop]
  | closing =>
    obtain ⟨rfl, rfl⟩ := List.cons.inj hcs
    exact ⟨.closing, [], _, rfl, rfl, hnil, rfl⟩
  | plain d =>
    obtain ⟨rfl, rfl⟩ := List.cons.inj hcs
    have hd := inert_iff.2 ht
    exact ⟨_, [], mid, Item.read_eq_ok_iff.2 (.piece ht.2.1 ht.2.2 (Piece.read_of_inert hd _ _)),
      rfl, hnil, rfl⟩

/-- A text that tokens read to its end is made up of items with these tokens. -/
theorem exists_complete_of_reads {before cs : List Char} {ts : List Token}
    (h : Reads before cs ts []) :
    ∃ is, Reading.Complete before.getLast? cs is ∧ ts = is.flatMap Item.tokens := by
  -- an item may have several tokens, so the induction is on the text that is left
  induction hn : cs.length using Nat.strongRecOn generalizing before cs ts with
  | _ n ih =>
    generalize hrest : ([] : List Char) = rest at h
    cases h with
    | done => subst hrest; exact ⟨[], .nil _, rfl⟩
    | @token _ mid _ t us ht hr =>
      subst hrest
      obtain ⟨c, tail, hcs⟩ := List.exists_cons_of_ne_nil
        (List.append_ne_nil_of_left_ne_nil (Token.text_ne_nil_of_stands ht) mid)
      obtain ⟨i, xs, rest, hi, htokens, hx, rfl⟩ := read_of_stands ht hcs
      obtain ⟨vs, rfl, hvs⟩ := reads_inert_append hx hr
      have hsource : t.text ++ xs = i.source := by
        rw [← text_tokens, htokens, text_cons, text_map_plain]
      rw [List.append_assoc, hsource] at hvs
      have hlt : rest.length < n := by
        rw [← hn, hcs]
        exact Item.length_rest_lt_of_read hi
      obtain ⟨is, his, rfl⟩ := ih _ hlt hvs rfl
      rw [List.getLast?_append_of_ne_nil before (Item.source_ne_nil_of_read hi)] at his
      refine ⟨i :: is, ?_, ?_⟩
      · rw [hcs]
        exact .cons hi his
      · rw [List.flatMap_cons, htokens, List.cons_append]

/-- Items that are passed over are read as their tokens. -/
theorem reads_of_passes {before cs rest : List Char} {is : List Item}
    (h : Reading.Passes before.getLast? cs is rest) :
    Reads before cs (is.flatMap Item.tokens) rest := by
  generalize hp : before.getLast? = prev at h
  induction h generalizing before with
  | nil => exact .done before _
  | cons hi _ ih =>
    subst hp
    have hlast := List.getLast?_append_of_ne_nil before (Item.source_ne_nil_of_read hi)
    rw [List.flatMap_cons]
    refine (reads_tokens hi).append ?_
    rw [text_tokens]
    exact ih hlast

theorem reads_of_complete {before cs : List Char} {is : List Item}
    (h : Reading.Complete before.getLast? cs is) :
    Reads before cs (is.flatMap Item.tokens) [] :=
  reads_of_passes (Reading.complete_iff_passes.1 h)

/-- A text is read to its end exactly by the tokens of its items. -/
theorem reads_iff {before cs : List Char} {ts : List Token} :
    Reads before cs ts [] ↔
      ∃ is, Reading.Complete before.getLast? cs is ∧ ts = is.flatMap Item.tokens := by
  constructor
  · exact exists_complete_of_reads
  · rintro ⟨is, h, rfl⟩
    exact reads_of_complete h

/-- No other tokens read a text to its end. -/
theorem eq_tokens_of_reads {before cs : List Char} {ts : List Token} {is : List Item}
    (h : Reading.Complete before.getLast? cs is) (hts : Reads before cs ts []) :
    ts = is.flatMap Item.tokens := by
  obtain ⟨js, hjs, rfl⟩ := exists_complete_of_reads hts
  have hsame := (Reading.complete_iff.1 h).symm.trans (Reading.complete_iff.1 hjs)
  cases hsame
  rfl

end Grammar

end EscapeClause
