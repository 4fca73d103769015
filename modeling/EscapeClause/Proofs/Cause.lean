import EscapeClause.Proofs.NativeText
import EscapeClause.Proofs.Places
import EscapeClause.Proofs.Stop

/-! Why a statement is refused. A refusal has one of seven causes, each of which can be seen
at the place it names: what follows there, and how many clauses and native literals are
open. Main statement: every error names its cause, and the one place of it. -/

namespace EscapeClause

open Text Grammar

/-- What is missing: the closing mark of a literal or comment, the clause of a closing brace,
the equals sign of a binding, or the closing brace of a clause or native literal. -/
inductive Cause where
  | unclosed (kind : Enclosed)
  | unopened
  | unbound
  | unfinished
  deriving DecidableEq, Repr

namespace Cause

def message : Cause → String
  | unclosed .stringLiteral => "Unterminated string literal"
  | unclosed .quotedIdentifier => "Unterminated quoted identifier"
  | unclosed .dollarQuoted => "Unterminated dollar-quoted string"
  | unclosed .blockComment => "Unterminated block comment"
  | unopened => "Unbalanced closing brace"
  | unbound => "Syntax error: expected \"=\""
  | unfinished => "Unterminated escape clause"

def expected? : Cause → Option String
  | unbound => some "="
  | _ => none

def problem : Cause → Problem
  | unclosed kind => kind.unterminated
  | unopened => .unbalancedClosing
  | unbound => .expected "="
  | unfinished => Item.unterminatedClause

/-- The cause can be seen at the place between `before` and `after`. -/
def Holds (before after : List Char) : Cause → Prop
  | unclosed kind =>
    (∃ n, Reached before after n) ∧
      ∃ body, after = kind.opener ++ body ∧ ¬ kind.closer <:+: body
  | unopened => Reached before after 0 ∧ after.head? = some '}'
  | unbound =>
    ∃ lead gap gap₁ n, before = lead ++ '{' :: gap ++ '?' :: gap₁ ∧ IsGap gap ∧ IsGap gap₁ ∧
      Reached lead ('{' :: gap ++ '?' :: gap₁ ++ after) n ∧ after.head? ≠ some '='
  | unfinished => after = [] ∧ ∃ n, 0 < n ∧ Reached before after n

/-- The place between `before` and `after` has a cause for the problem. -/
def Explains (problem : Problem) (before after : List Char) : Prop :=
  ∃ cause : Cause, problem = cause.problem ∧ cause.Holds before after

theorem message_problem (c : Cause) : c.problem.message = c.message := by
  cases c with
  | unclosed kind => cases kind <;> rfl
  | _ => rfl

theorem expected?_problem (c : Cause) : c.problem.expected? = c.expected? := by
  cases c <;> rfl

def all : List Cause :=
  [unclosed .stringLiteral, unclosed .quotedIdentifier, unclosed .dollarQuoted,
    unclosed .blockComment, unopened, unbound, unfinished]

theorem mem_all (c : Cause) : c ∈ all := by
  cases c with
  | unclosed kind => cases kind <;> decide
  | _ => decide

theorem message_injective : Function.Injective message := by
  have hall : ∀ c ∈ all, ∀ d ∈ all, c.message = d.message → c = d := by decide
  exact fun c d => hall c (mem_all c) d (mem_all d)

theorem problem_injective : Function.Injective problem := by
  intro c d h
  apply message_injective
  rw [← message_problem, ← message_problem, h]

end Cause

/-- A digit begins no literal and no comment. -/
theorem Piece.mayStartLiteral_of_isDigit {c : Char} (h : c.isDigit = true) :
    mayStartLiteral c = false := by
  rw [Bool.eq_false_iff]
  intro hm
  simp only [mayStartLiteral, Bool.or_eq_true, beq_iff_eq] at hm
  rcases hm with (((rfl | rfl) | rfl) | rfl) | rfl <;> cases h

namespace Grammar

/-- The reading of items comes by the place behind them. -/
theorem reached_of_passes {cs rest : List Char} {is : List Item} {n : Nat}
    (h : Reading.Passes none cs is rest) (hl : Nesting.levelBehind 0 is = .ok n) :
    Reads [] (is.flatMap Item.source ++ rest) (is.flatMap Item.tokens) rest ∧
      Nests 0 n (is.flatMap Item.tokens) := by
  rw [← h.eq_append]
  exact ⟨@reads_of_passes [] cs rest is h, levelBehind_eq_ok_iff.1 hl⟩

/-- A faulty body of a native literal stands inside of it up to where the fault is. -/
theorem inside_of_readBody {before cs : List Char} {f : Fault}
    (h : Item.readBody before.getLast? cs = .error f) :
    ∃ after, cs = f.before ++ after ∧ Inside after before f.before ∧
      (after = [] ∧ f.problem = Item.unterminatedClause ∨
        ∃ kind prev, f.problem = kind.unterminated ∧ Literal.Unclosed prev after kind) := by
  generalize hp : before.getLast? = prev at h
  fun_induction Item.readBody prev cs generalizing before f with
  | case1 => cases h; exact ⟨[], rfl, .nil before, .inl ⟨rfl, rfl⟩⟩
  | case2 => cases h
  | case3 prev c cs hc kind hread =>
    cases h
    exact ⟨c :: cs, rfl, .nil before, .inr ⟨kind, prev, rfl, Piece.read_eq_error_iff.1 hread⟩⟩
  | case4 prev c cs hc p mid hread _ g hb ih =>
    cases h
    subst hp
    obtain ⟨after, hcs, hin, hf⟩ :=
      ih (List.getLast?_append_of_ne_nil before (Piece.text_ne_nil_of_read hread)) hb
    refine ⟨after, ?_, ?_, hf⟩
    · rw [Piece.append_of_read hread, hcs]
      exact (List.append_assoc ..).symm
    · rcases stretch_of_read hread with ⟨-, hs⟩ | ⟨rfl, -, hm⟩
      · rw [hcs] at hs
        exact .stretch hs hin
      · exact .plain hc hm hin
  | case5 => cases h

end Grammar

section Located

variable {rest : List Char} {ts : List Token} {n : Nat} {f : Fault}

theorem explains_of_unclosed {before after : List Char} {prev : Option Char} {kind : Enclosed}
    (h : Reached before after n) (hu : Literal.Unclosed prev after kind) :
    Cause.Explains kind.unterminated before after := by
  obtain ⟨body, ho, hn⟩ := hu
  exact ⟨.unclosed kind, rfl, ⟨n, h⟩, body, (Literal.opening?_eq_some_iff.1 ho).1, hn⟩

/-- The cause of a fault in a native literal, within it. -/
theorem exists_explains_of_readBody {gap ds : List Char} {d : Char}
    (hr : Reads [] (text ts ++ '{' :: (gap ++ d :: ds)) ts ('{' :: (gap ++ d :: ds)))
    (hn : Nests 0 n ts) (hg : IsGap gap) (hd : d.isDigit = true)
    (h : Item.readBody ('{' :: gap).getLast? (d :: ds) = .error f) :
    ∃ after, d :: ds = f.before ++ after ∧
      Cause.Explains f.problem (text ts ++ '{' :: (gap ++ f.before)) after := by
  rw [← List.getLast?_append_of_ne_nil (text ts) (List.cons_ne_nil '{' gap)] at h
  obtain ⟨after, hds, hin, hf⟩ := inside_of_readBody h
  refine ⟨after, hds, ?_⟩
  cases hb : f.before with
  | nil =>
    -- the digit neither ends the text nor opens a literal
    rw [hb, List.nil_append] at hds
    subst hds
    rcases hf with ⟨⟨⟩, -⟩ | ⟨kind, prev, -, hu⟩
    have hm := Piece.mayStartLiteral_of_unclosed hu
    rw [Piece.mayStartLiteral_of_isDigit hd] at hm
    cases hm
  | cons x body =>
    rw [hb] at hds hin
    obtain ⟨rfl, rfl⟩ := List.cons.inj hds
    have hreached : Reached (text ts ++ '{' :: (gap ++ d :: body)) after (n + 1) :=
      .native (by simpa using hr) hn hg hd hin
    rcases hf with ⟨rfl, hf⟩ | ⟨kind, prev, hf, hu⟩
    · exact ⟨.unfinished, hf, rfl, n + 1, Nat.succ_pos n, hreached⟩
    · rw [hf]
      exact explains_of_unclosed hreached hu

/-- The cause can be seen where reading stops. -/
theorem Stops.exists_explains (h : Stops n (text ts).getLast? rest f)
    (hr : Reads [] (text ts ++ rest) ts rest) (hn : Nests 0 n ts) :
    ∃ after, rest = f.before ++ after ∧ Cause.Explains f.problem (text ts ++ f.before) after := by
  cases h with
  | ended hl =>
    refine ⟨[], rfl, .unfinished, rfl, rfl, n, hl, ?_⟩
    rw [List.append_nil]
    exact .token hr hn
  | unopened hl cs =>
    subst hl
    refine ⟨_, rfl, .unopened, rfl, ?_, rfl⟩
    rw [List.append_nil]
    exact .token hr hn
  | item hf =>
    cases hf with
    | piece ho hc hp =>
      refine ⟨_, rfl, ?_⟩
      rw [List.append_nil]
      exact explains_of_unclosed (.token hr hn) (Piece.read_eq_error_iff.1 hp)
    | @ended gap hg =>
      refine ⟨[], (List.append_nil _).symm, .unfinished, rfl, rfl, n + 1, Nat.succ_pos n, ?_⟩
      exact .brace (by simpa using hr) hn hg (by rintro c ⟨⟩)
    | @native gap ds d g hg hd hb =>
      obtain ⟨after, hds, hexplains⟩ := exists_explains_of_readBody hr hn hg hd hb
      refine ⟨after, ?_, hexplains⟩
      rw [hds]
      exact (List.append_assoc ('{' :: gap) g.before after).symm
    | @unbound gap gap₁ cs hg h₁ hc =>
      refine ⟨cs, by simp, .unbound, rfl, text ts, gap, gap₁, n, by simp, hg, h₁, ?_, ?_⟩
      · have hreached := Reached.token hr hn
        simpa using hreached
      · exact fun he => (hc '=' he).2 rfl

/-- A statement that cannot be read has a cause for it at the place of the fault. -/
theorem exists_explains {cs : List Char} (h : readStatement cs = .error f) :
    ∃ after, cs = f.before ++ after ∧ Cause.Explains f.problem f.before after := by
  obtain ⟨is, rest, n, g, hp, hl, hs, rfl⟩ := exists_stops h
  obtain ⟨hr, hn⟩ := reached_of_passes hp hl
  rw [← text_flatMap_tokens] at hr hs
  rw [Option.or_none] at hs
  obtain ⟨after, rfl, hexplains⟩ := hs.exists_explains hr hn
  refine ⟨after, ?_, ?_⟩
  · rw [hp.eq_append, Fault.behind, List.append_assoc]
  · rwa [text_flatMap_tokens] at hexplains

/-- An error is malformed text at one place of the statement, given in bytes and in
characters, and its wording tells the one cause that can be seen there. -/
theorem nativeText_error_has_cause {sql : String} {e : StatementError}
    (h : nativeText sql true = .error e) :
    ∃ before after problem, sql.toList = before ++ after ∧
      e = .malformed problem (Span.point (byteLength before)) before.length ∧
      ∃! cause : Cause, problem.message = cause.message ∧
        problem.expected? = cause.expected? ∧ cause.Holds before after := by
  obtain ⟨-, f, hf, rfl⟩ := nativeText_eq_error_iff.1 h
  obtain ⟨after, hsql, cause, hproblem, hholds⟩ := exists_explains hf
  refine ⟨f.before, after, f.problem, hsql, rfl, cause, ⟨?_, ?_, hholds⟩, ?_⟩
  · rw [hproblem, cause.message_problem]
  · rw [hproblem, cause.expected?_problem]
  · rintro other ⟨hm, -, -⟩
    rw [hproblem, cause.message_problem] at hm
    exact Cause.message_injective hm.symm

theorem nativeText_error_has_cause_native :
    nativeText "é {1 $$x}" true =
        .error (.malformed (.unterminated "dollar-quoted string") ⟨6, 6⟩ 5) ∧
      ∃ before after, "é {1 $$x}".toList = before ++ after ∧ before.length = 5 ∧
        (Cause.unclosed .dollarQuoted).Holds before after := by
  have h : nativeText "é {1 $$x}" true =
      .error (.malformed (.unterminated "dollar-quoted string") ⟨6, 6⟩ 5) := by decide +kernel
  obtain ⟨before, after, problem, hsql, he, cause, ⟨hm, -, hholds⟩, -⟩ :=
    nativeText_error_has_cause h
  obtain ⟨rfl, -, hlength⟩ := StatementError.malformed.inj he
  have hcause : Cause.unclosed .dollarQuoted = cause := Cause.message_injective hm
  subst hcause
  exact ⟨h, before, after, hsql, hlength.symm, hholds⟩

end Located

end EscapeClause
