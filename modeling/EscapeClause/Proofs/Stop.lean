import EscapeClause.Proofs.Passage
import Mathlib.Data.List.Basic

/-! Where reading stops. At the front of a text that cannot be read on stands one of few
things, each with its fault. Main statements: a faulty reading is a reading of items up to
such a place, and `Stops.append_line`, by which closing braces on a new line mend nothing
but what is unterminated. -/

namespace EscapeClause

open Text

/-- A mark that ends outside a text without its last character stands before it. -/
theorem Text.infix_of_infix_append {mark cs more : List Char} (hne : mark ≠ [])
    (hm : ∀ c, mark.getLast? = some c → c ∉ more) (h : mark <:+: cs ++ more) : mark <:+: cs := by
  obtain ⟨xs, ys, hxy⟩ := h
  rcases List.append_eq_append_iff.1 hxy with ⟨tail, rfl, -⟩ | ⟨tail, hmark, rfl⟩
  · exact ⟨xs, tail, rfl⟩
  · by_cases ht : tail = []
    · subst ht
      exact ⟨xs, [], by rw [hmark, List.append_nil, List.append_nil]⟩
    · have hlast := congrArg List.getLast? hmark
      rw [List.getLast?_append_of_ne_nil xs hne, List.getLast?_append_of_ne_nil cs ht] at hlast
      have hc := List.getLast?_eq_some_getLast ht
      exact absurd (List.mem_append_left ys (List.getLast_mem ht)) (hm _ (hlast.trans hc))

namespace Literal

/-- A literal or comment of this kind begins at the front, and its closing mark is missing. -/
def Unclosed (prev : Option Char) (cs : List Char) (kind : Enclosed) : Prop :=
  ∃ body, opening? prev cs = some (.enclosed kind, body) ∧ ¬ kind.closer <:+: body

theorem skip_eq_error_iff {prev : Option Char} {cs : List Char} {kind : Enclosed} :
    skip prev cs = .error kind ↔ Unclosed prev cs kind := by
  rw [skip, Unclosed]
  cases opening? prev cs with
  | none => simp
  | some r =>
    obtain ⟨o, body⟩ := r
    cases o with
    | lineComment mark => simp [Opening.pass]
    | enclosed kind' =>
      simp only [Opening.pass]
      cases hs : splitAfter kind'.closer body with
      | some split =>
        have hclosed : kind'.closer <:+: body := by
          by_cases hc : kind'.closer <:+: body
          · exact hc
          · rw [splitAfter_eq_none_iff.2 hc] at hs
            cases hs
        constructor
        · intro h
          cases h
        · rintro ⟨_, ⟨⟩, hn⟩
          exact absurd hclosed hn
      | none =>
        have hn := splitAfter_eq_none_iff.1 hs
        constructor
        · rintro ⟨⟩
          exact ⟨body, rfl, hn⟩
        · rintro ⟨_, ⟨⟩, -⟩
          rfl

theorem Unclosed.append {prev : Option Char} {cs more : List Char} {kind : Enclosed}
    (h : Unclosed prev cs kind) (hm : ∀ c, kind.closer.getLast? = some c → c ∉ more) :
    Unclosed prev (cs ++ more) kind := by
  obtain ⟨body, ho, hn⟩ := h
  obtain ⟨rfl, hs⟩ := opening?_eq_some_iff.1 ho
  exact ⟨body ++ more, opening?_eq_some_iff.2 ⟨List.append_assoc .., hs⟩,
    mt (infix_of_infix_append kind.closer_ne_nil hm) hn⟩

end Literal

namespace Piece

variable {prev : Option Char} {c : Char} {cs : List Char} {kind : Enclosed}

theorem mayStartLiteral_of_unclosed (h : Literal.Unclosed prev (c :: cs) kind) :
    mayStartLiteral c = true := by
  obtain ⟨body, ho, -⟩ := h
  have hcs := (Literal.opening?_eq_some_iff.1 ho).1
  cases kind with
  | stringLiteral => cases hcs; rfl
  | quotedIdentifier => cases hcs; rfl
  | dollarQuoted => cases hcs; rfl
  | blockComment => cases hcs; rfl

theorem read_eq_error_iff :
    read prev c cs = .error kind ↔ Literal.Unclosed prev (c :: cs) kind := by
  rw [read]
  split
  · rw [← Literal.skip_eq_error_iff]
    cases Literal.skip prev (c :: cs) <;> simp
  · next hm =>
    constructor
    · intro h
      cases h
    · exact fun h => absurd (mayStartLiteral_of_unclosed h) hm

end Piece

namespace Item

/-- `Fails prev c cs f`: no item can be read that begins with `c`, behind `prev` and in front
of `cs`, because of the fault `f`. -/
inductive Fails (prev : Option Char) : Char → List Char → Fault → Prop where
  | piece {c : Char} {cs : List Char} {kind : Enclosed} (ho : c ≠ '{') (hc : c ≠ '}')
      (hp : Piece.read prev c cs = .error kind) : Fails prev c cs ⟨kind.unterminated, []⟩
  | ended {gap : List Char} (hg : IsGap gap) :
      Fails prev '{' gap ⟨unterminatedClause, '{' :: gap⟩
  | native {gap ds : List Char} {d : Char} {f : Fault} (hg : IsGap gap) (hd : d.isDigit = true)
      (hb : readBody ('{' :: gap).getLast? (d :: ds) = .error f) :
      Fails prev '{' (gap ++ d :: ds) (f.behind ('{' :: gap))
  | unbound {gap gap₁ cs : List Char} (hg : IsGap gap) (h₁ : IsGap gap₁)
      (hc : ∀ c ∈ cs.head?, isBlank c = false ∧ c ≠ '=') :
      Fails prev '{' (gap ++ '?' :: (gap₁ ++ cs)) ⟨.expected "=", '{' :: gap ++ '?' :: gap₁⟩

section Fails

variable {prev : Option Char} {c : Char} {cs : List Char} {f : Fault}

theorem fails_of_readOpening (h : readOpening cs = .error f) : Fails prev '{' cs f := by
  cases header cs with
  | ended hg =>
    rw [readOpening_ended hg] at h
    cases h
    exact .ended hg
  | native hg hd =>
    rw [readOpening_native hg hd] at h
    split at h
    · next g hb =>
      cases h
      exact .native hg hd hb
    · cases h
  | clause hg hb hd hq => rw [readOpening_clause hg hb hd hq] at h; cases h
  | bound hg h₁ => rw [readOpening_bound hg h₁] at h; cases h
  | unbound hg h₁ hc =>
    rw [readOpening_unbound hg h₁ hc] at h
    cases h
    exact .unbound hg h₁ hc

theorem read_eq_error_iff : read prev c cs = .error f ↔ Fails prev c cs f := by
  constructor
  · intro h
    unfold read at h
    split at h
    · next ho => rw [ho]; exact fails_of_readOpening h
    · next ho =>
      split at h
      · cases h
      · next hc =>
        split at h
        · next kind hp => cases h; exact .piece ho hc hp
        · cases h
  · intro h
    cases h with
    | piece ho hc hp => rw [read, if_neg ho, if_neg hc, hp]
    | ended hg => rw [read, if_pos rfl, readOpening_ended hg]
    | native hg hd hb => rw [read, if_pos rfl, readOpening_native hg hd, hb]
    | unbound hg h₁ hc => rw [read, if_pos rfl, readOpening_unbound hg h₁ hc]

end Fails

section AppendLine

variable {prev : Option Char} {c : Char} {cs : List Char} {f : Fault} {k : Nat}

/-- No literal or comment is closed by a new line and closing braces. -/
theorem unclosed_append_line {kind : Enclosed} (h : Literal.Unclosed prev cs kind) (k : Nat) :
    Literal.Unclosed prev (cs ++ '\n' :: List.replicate k '}') kind := by
  refine h.append fun c hc hmem => ?_
  rcases List.mem_cons.1 hmem with rfl | hmem
  · cases kind <;> cases hc
  · rw [List.eq_of_mem_replicate hmem] at hc
    cases kind <;> cases hc

theorem readBody_of_error {kind : Enclosed} (hc : c ≠ '}')
    (h : Piece.read prev c cs = .error kind) :
    readBody prev (c :: cs) = .error ⟨kind.unterminated, []⟩ := by
  rw [readBody, if_neg hc]
  split
  · next he => rw [h] at he; cases he; rfl
  · next he => rw [h] at he; cases he

theorem exists_readBody_append_line (h : readBody prev cs = .error f)
    (hf : f.problem ≠ unterminatedClause) (k : Nat) :
    ∃ g, readBody prev (cs ++ '\n' :: List.replicate k '}') = .error g := by
  fun_induction readBody prev cs generalizing f with
  | case1 => cases h; exact absurd rfl hf
  | case2 => cases h
  | case3 prev c cs hc kind hp =>
    have hp' := unclosed_append_line (Piece.read_eq_error_iff.1 hp) k
    exact ⟨_, readBody_of_error hc (Piece.read_eq_error_iff.2 hp')⟩
  | case4 prev c cs hc p after hp _ g hb ih =>
    cases h
    obtain ⟨g', hg'⟩ := ih hb hf
    obtain ⟨cs', hcs, hp'⟩ := Piece.read_replace hp (fun _ => rfl)
      (replaces_line after (List.replicate k '}')).toReplaces
    rw [← List.append_assoc, ← Piece.append_of_read hp] at hcs
    refine ⟨g'.behind p.text, ?_⟩
    rw [hcs, readBody_of_ok hc hp', hg']
  | case5 => cases h

/-- What is wrong with an item stays wrong when a new line and closing braces follow,
unless the item is not terminated. -/
theorem Fails.append_line (h : Fails prev c cs f) (hf : f.problem ≠ unterminatedClause) (k : Nat) :
    ∃ g, Fails prev c (cs ++ '\n' :: List.replicate k '}') g := by
  cases h with
  | piece ho hc hp =>
    have hp' := unclosed_append_line (Piece.read_eq_error_iff.1 hp) k
    exact ⟨_, .piece ho hc (Piece.read_eq_error_iff.2 hp')⟩
  | ended => exact absurd rfl hf
  | native hg hd hb =>
    obtain ⟨g, hb'⟩ := exists_readBody_append_line hb hf k
    rw [List.append_assoc]
    exact ⟨_, .native hg hd hb'⟩
  | @unbound gap gap₁ cs hg h₁ hc =>
    rw [List.append_assoc, List.cons_append, List.append_assoc]
    cases cs with
    | cons d cs => exact ⟨_, .unbound hg h₁ hc⟩
    | nil =>
      -- the new line makes the gap longer, and what follows it is no equals sign
      have hbrace : ∀ x ∈ (List.replicate k '}').head?, isBlank x = false ∧ x ≠ '=' := by
        intro x hx
        rw [List.eq_of_mem_replicate (List.mem_of_mem_head? hx)]
        decide
      have hfails := @Fails.unbound prev gap (gap₁ ++ ['\n']) _ hg (h₁.concat (by decide)) hbrace
      rw [List.append_assoc] at hfails
      exact ⟨_, hfails⟩

end AppendLine

end Item

/-- `Stops level prev cs f`: behind `prev`, with `level` clauses open, nothing of `cs` can be
read on because of the fault `f`. -/
inductive Stops (level : Nat) (prev : Option Char) : List Char → Fault → Prop where
  | ended (hl : 0 < level) : Stops level prev [] ⟨Item.unterminatedClause, []⟩
  | unopened (hl : level = 0) (cs : List Char) :
      Stops level prev ('}' :: cs) ⟨.unbalancedClosing, []⟩
  | item {c : Char} {cs : List Char} {f : Fault} (hf : Item.Fails prev c cs f) :
      Stops level prev (c :: cs) f

section Stops

variable {level : Nat} {prev : Option Char} {cs : List Char} {f : Fault}

theorem Stops.readFrom_eq (h : Stops level prev cs f) : readFrom level prev cs = .error f := by
  cases h with
  | ended hl => rw [readFrom_nil, if_neg (by omega)]
  | unopened hl cs =>
    subst hl
    exact readFrom_of_unbalanced (i := .closing) rfl rfl
  | item hf => exact readFrom_of_error (Item.read_eq_error_iff.2 hf)

/-- A faulty reading is one of items up to a place where it stops. -/
theorem exists_stops (h : readFrom level prev cs = .error f) :
    ∃ is rest final g, Reading.Passes prev cs is rest ∧
      Nesting.levelBehind level is = .ok final ∧
      Stops final ((is.flatMap Item.source).getLast?.or prev) rest g ∧
      f = g.behind (is.flatMap Item.source) := by
  induction prev, cs using Reading.read.induct generalizing level f with
  | case1 prev =>
    rw [readFrom_nil] at h
    split at h
    · cases h
    · cases h
      exact ⟨[], [], level, _, .nil prev [], rfl, .ended (by omega), rfl⟩
  | case2 prev c cs g hi =>
    rw [readFrom_of_error hi] at h
    cases h
    exact ⟨[], c :: cs, level, g, .nil prev _, rfl, .item (Item.read_eq_error_iff.1 hi), rfl⟩
  | case3 prev c cs i rest hi _ ih =>
    cases hl : i.levelBehind? level with
    | none =>
      rw [readFrom_of_unbalanced hi hl] at h
      cases h
      cases Item.read_eq_ok_iff.1 hi with
      | closing =>
        have h0 : level = 0 := by simpa [Item.levelBehind?] using hl
        exact ⟨[], '}' :: cs, level, _, .nil prev _, rfl, .unopened h0 cs, rfl⟩
      | _ => cases hl
    | some next =>
      rw [readFrom_of_ok hi hl] at h
      cases hr : readFrom next i.source.getLast? rest with
      | ok is => rw [hr] at h; cases h
      | error g =>
        rw [hr] at h
        cases h
        obtain ⟨is, rest', final, g', hp, hlevel, hs, rfl⟩ := ih hr
        refine ⟨i :: is, rest', final, g', .cons hi hp,
          Nesting.levelBehind_cons_eq_ok_iff.2 ⟨next, hl, hlevel⟩, ?_, ?_⟩
        · rwa [List.flatMap_cons, Reading.getLast?_append_or (Item.source_ne_nil_of_read hi)]
        · rw [Fault.behind_behind, List.flatMap_singleton, List.flatMap_cons]

/-- Closing braces on a new line do not mend a statement that can be mended at all only by
changing it. -/
theorem exists_error_append_line (h : readStatement cs = .error f)
    (hf : f.problem ≠ Item.unterminatedClause) (k : Nat) :
    ∃ g, readStatement (cs ++ '\n' :: List.replicate k '}') = .error g := by
  obtain ⟨is, rest, final, g, hp, hl, hs, rfl⟩ := exists_stops h
  have hrest (hne : rest ≠ []) :
      readStatement (cs ++ '\n' :: List.replicate k '}') =
        prefixed is (readFrom final ((is.flatMap Item.source).getLast?.or none)
          (rest ++ '\n' :: List.replicate k '}')) := by
    have hp' := hp.replace (fun _ => rfl) (Item.replaces_line rest (List.replicate k '}'))
      fun _ _ _ => hne
    rw [← List.append_assoc, ← hp.eq_append] at hp'
    exact readFrom_of_passes hp' hl
  cases hs with
  | ended => exact absurd rfl hf
  | unopened h0 cs =>
    rw [hrest (List.cons_ne_nil _ _), List.cons_append, (Stops.unopened h0 _).readFrom_eq]
    exact ⟨_, rfl⟩
  | item hfails =>
    obtain ⟨g', hg'⟩ := hfails.append_line hf k
    rw [hrest (List.cons_ne_nil _ _), List.cons_append, (Stops.item hg').readFrom_eq]
    exact ⟨_, rfl⟩

end Stops

end EscapeClause
