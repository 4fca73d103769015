import EscapeClause.Proofs.Opening

/-! The grammar of a statement. A statement is read as a sequence of tokens, each at the
place where the one before it ends, and is well formed when the closings never outnumber
the openings and both are equally many at its end. The grammar looks at the statement
from its bytes: a stretch is what `Literal.endPosition` measures. It names no depth and
no output, and an opening covers only its brace and gap, so that what may follow is a
condition on the rest. -/

namespace EscapeClause.Grammar

open Text

/-- A stretch begins with a character that may start a literal or comment. -/
inductive Token where
  | stretch (text : List Char)
  | native (gap body : List Char)
  | opening (gap : List Char)
  | closing
  | plain (c : Char)
  deriving DecidableEq, Repr

def Token.text : Token → List Char
  | stretch text => text
  | native gap body => '{' :: gap ++ body ++ ['}']
  | opening gap => '{' :: gap
  | closing => ['}']
  | plain c => [c]

def text (ts : List Token) : List Char := ts.flatMap Token.text

@[simp] theorem text_nil : text [] = [] := rfl

@[simp] theorem text_cons (t : Token) (ts : List Token) : text (t :: ts) = t.text ++ text ts := rfl

@[simp] theorem text_append (ts us : List Token) : text (ts ++ us) = text ts ++ text us :=
  List.flatMap_append

/-- Between `before` and `rest` stands the stretch `cs`, measured in the whole text. -/
structure Stretch (before cs rest : List Char) : Prop where
  starts : ∃ c ∈ cs.head?, Piece.mayStartLiteral c = true
  ends : Literal.endPosition (String.ofList (before ++ cs ++ rest)) (byteLength before) =
    .ok (byteLength (before ++ cs))

/-- The body of a native literal: stretches, and single characters other than its closing
brace. An opening brace is one of those characters. -/
inductive Body (rest : List Char) : List Char → List Char → Prop where
  | nil (before : List Char) : Body rest before []
  | stretch {before cs body : List Char} (hs : Stretch before cs (body ++ '}' :: rest))
      (hb : Body rest (before ++ cs) body) : Body rest before (cs ++ body)
  | plain {before body : List Char} {c : Char} (hc : c ≠ '}')
      (hm : Piece.mayStartLiteral c = false) (hb : Body rest (before ++ [c]) body) :
      Body rest before (c :: body)

/-- The token may stand between `before` and `rest`. A clause opens where something
follows the gap that is no digit, and a question mark there needs its equals sign. -/
def Token.Stands (before rest : List Char) : Token → Prop
  | stretch cs => Stretch before cs rest
  | native gap body =>
    IsGap gap ∧ (∃ d ∈ body.head?, d.isDigit = true) ∧ Body rest (before ++ '{' :: gap) body
  | opening gap =>
    IsGap gap ∧ ∃ c after, rest = c :: after ∧ isBlank c = false ∧ c.isDigit = false ∧
      (c = '?' → ∃ gap₁ bound, after = gap₁ ++ '=' :: bound ∧ IsGap gap₁)
  | closing => True
  | plain c => Piece.mayStartLiteral c = false ∧ c ≠ '{' ∧ c ≠ '}'

/-- `Reads before cs ts rest`: behind `before`, the tokens `ts` are read from `cs` one after
the other, and `rest` is left. -/
inductive Reads : List Char → List Char → List Token → List Char → Prop where
  | done (before rest : List Char) : Reads before rest [] rest
  | token {before mid rest : List Char} {t : Token} {ts : List Token} (ht : t.Stands before mid)
      (hr : Reads (before ++ t.text) mid ts rest) : Reads before (t.text ++ mid) (t :: ts) rest

def Token.opens : Token → Bool
  | opening _ => true
  | _ => false

def Token.closes : Token → Bool
  | closing => true
  | _ => false

def openings (ts : List Token) : Nat := ts.countP Token.opens

def closings (ts : List Token) : Nat := ts.countP Token.closes

theorem openings_append (ts us : List Token) : openings (ts ++ us) = openings ts + openings us :=
  List.countP_append

theorem closings_append (ts us : List Token) : closings (ts ++ us) = closings ts + closings us :=
  List.countP_append

/-- No closing comes too early and none is missing. -/
structure Balanced (ts : List Token) : Prop where
  closings_le : ∀ us, us <+: ts → closings us ≤ openings us
  closings_eq : closings ts = openings ts

namespace Reads

theorem append {before cs mid rest : List Char} {ts us : List Token}
    (h₁ : Reads before cs ts mid) (h₂ : Reads (before ++ text ts) mid us rest) :
    Reads before cs (ts ++ us) rest := by
  induction h₁ with
  | done before rest =>
    rw [text_nil, List.append_nil] at h₂
    exact h₂
  | token ht _ ih =>
    rw [text_cons, ← List.append_assoc] at h₂
    exact .token ht (ih h₂)

/-- The tokens make up the text that is read, without a gap. -/
theorem eq_append {before cs rest : List Char} {ts : List Token}
    (h : Reads before cs ts rest) : cs = text ts ++ rest := by
  induction h with
  | done => rfl
  | token _ _ ih => rw [ih, text_cons, List.append_assoc]

end Reads

theorem Token.text_ne_nil_of_stands {before rest : List Char} {t : Token}
    (h : t.Stands before rest) : t.text ≠ [] := by
  cases t with
  | stretch cs =>
    obtain ⟨c, hc, -⟩ := h.starts
    rintro rfl
    cases hc
  | native gap body => exact List.cons_ne_nil _ _
  | opening gap => exact List.cons_ne_nil _ _
  | closing => exact List.cons_ne_nil _ _
  | plain c => exact List.cons_ne_nil _ _

/-- A stretch is what `Literal.skip` splits off. -/
theorem stretch_iff {before cs rest : List Char} :
    Stretch before cs rest ↔ ∃ c tail, cs ++ rest = c :: tail ∧ Piece.mayStartLiteral c = true ∧
      Literal.skip before.getLast? (c :: tail) = .ok (cs, rest) := by
  constructor
  · rintro ⟨⟨c, hc, hm⟩, he⟩
    obtain ⟨tail, rfl⟩ := List.head?_eq_some_iff.1 hc
    refine ⟨c, tail ++ rest, rfl, hm, ?_⟩
    rw [List.append_assoc, List.cons_append,
      Literal.endPosition_eq _ _ (Piece.utf8Size_of_mayStartLiteral hm)] at he
    split at he
    · next passed after hs =>
      have hl : byteLength passed = byteLength (c :: tail) := by
        have := Except.ok.inj he
        rw [byteLength_append] at this
        omega
      obtain ⟨rfl, rfl⟩ := append_inj_byteLength (Literal.append_of_skip hs).symm hl
      exact hs
    · cases he
  · rintro ⟨c, tail, hcs, hm, hs⟩
    have hne := Literal.passed_ne_nil_of_skip hs (List.cons_ne_nil c tail)
    obtain ⟨d, cs', rfl⟩ := List.exists_cons_of_ne_nil hne
    obtain ⟨rfl, -⟩ := List.cons.inj hcs
    refine ⟨⟨d, rfl, hm⟩, ?_⟩
    rw [List.append_assoc, hcs,
      Literal.endPosition_eq _ _ (Piece.utf8Size_of_mayStartLiteral hm), hs, byteLength_append]

end EscapeClause.Grammar
