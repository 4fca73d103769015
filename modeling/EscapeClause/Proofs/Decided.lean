import EscapeClause.Proofs.Cause

/-! Errors that no continuation mends. A closing brace without a clause and a binding without
its equals sign are seen at one character, and nothing that the reading looks ahead for
stands behind it. Main statement: every text that begins alike, up to and with that
character, fails with the same error. -/

namespace EscapeClause

open Text

/-- Problems that can be seen at a character, for they are no missing ends. -/
def Problem.Definite (p : Problem) : Prop :=
  p.message = "Unbalanced closing brace" ∨ p.message = "Syntax error: expected \"=\""

theorem Problem.not_definite_unterminated (kind : Enclosed) : ¬ kind.unterminated.Definite := by
  rw [Problem.Definite]
  cases kind <;> decide

theorem Problem.not_definite_unterminatedClause : ¬ Item.unterminatedClause.Definite := by
  rw [Problem.Definite]
  decide

namespace Item

theorem not_definite_of_readBody {prev : Option Char} {cs : List Char} {f : Fault}
    (h : readBody prev cs = .error f) : ¬ f.problem.Definite := by
  fun_induction readBody prev cs generalizing f with
  | case1 => cases h; exact Problem.not_definite_unterminatedClause
  | case2 => cases h
  | case3 _ _ _ _ kind => cases h; exact Problem.not_definite_unterminated kind
  | case4 _ _ _ _ _ _ _ _ g hb ih => cases h; exact @ih g hb
  | case5 => cases h

end Item

section Stops

variable {level : Nat} {prev : Option Char} {cs : List Char} {f : Fault}

/-- Reading stops alike in front of every text that begins with what is wrong. -/
theorem Stops.of_definite (h : Stops level prev cs f) (hf : f.problem.Definite) {c : Char}
    {after : List Char} (hcs : cs = f.before ++ c :: after) (after' : List Char) :
    ∃ x xs xs', ¬ Inert x ∧ cs = x :: xs ∧ f.before ++ c :: after' = x :: xs' ∧
      Stops level prev (f.before ++ c :: after') f := by
  cases h with
  | ended => cases hcs
  | unopened hl cs =>
    obtain ⟨rfl, -⟩ := List.cons.inj hcs
    exact ⟨_, _, _, by decide, rfl, rfl, .unopened hl after'⟩
  | item hfails =>
    cases hfails with
    | @piece _ _ kind => exact absurd hf (Problem.not_definite_unterminated kind)
    | ended => exact absurd hf Problem.not_definite_unterminatedClause
    | @native _ _ _ g hg hd hb => exact absurd hf (@Item.not_definite_of_readBody _ _ g hb)
    | @unbound gap gap₁ ds hg h₁ hc =>
      obtain rfl : ds = c :: after := by simpa using hcs
      refine ⟨'{', _, gap ++ '?' :: (gap₁ ++ c :: after'), by decide, rfl, by simp, ?_⟩
      have hstops : Stops level prev ('{' :: (gap ++ '?' :: (gap₁ ++ c :: after')))
          ⟨.expected "=", '{' :: gap ++ '?' :: gap₁⟩ := .item (.unbound hg h₁ hc)
      simpa using hstops

/-- A definite fault is decided by the text up to and with the character at its place. -/
theorem readStatement_of_definite (h : readStatement cs = .error f) (hf : f.problem.Definite)
    {c : Char} {after : List Char} (hcs : cs = f.before ++ c :: after) (after' : List Char) :
    readStatement (f.before ++ c :: after') = .error f := by
  obtain ⟨is, rest, n, g, hp, hl, hs, rfl⟩ := exists_stops h
  have hrest : rest = g.before ++ c :: after := by
    refine List.append_cancel_left (hp.eq_append.symm.trans ?_)
    rw [hcs, Fault.behind, List.append_assoc]
  obtain ⟨x, xs, xs', hx, rfl, hxs', hs'⟩ := hs.of_definite hf hrest after'
  have hp' := hp.replace (fun _ => rfl) (Item.replaces_of_not_inert hx xs xs')
    fun _ _ _ => List.cons_ne_nil x xs
  rw [← hxs'] at hp'
  rw [Fault.behind, List.append_assoc, readStatement_eq, readFrom_of_passes hp' hl, hs'.readFrom_eq]
  rfl

/-- A closing brace without a clause stands where the fault is. -/
theorem exists_of_unbalanced (h : readStatement cs = .error f)
    (hf : f.problem.message = "Unbalanced closing brace") :
    ∃ after, cs = f.before ++ '}' :: after := by
  obtain ⟨rest, rfl, cause, hproblem, hholds⟩ := exists_explains h
  have hcause : cause = .unopened :=
    Cause.message_injective (by rw [← cause.message_problem, ← hproblem, hf]; rfl)
  rw [hcause] at hholds
  obtain ⟨after, rfl⟩ := List.head?_eq_some_iff.1 hholds.2
  exact ⟨after, rfl⟩

end Stops

/-- Where a closing brace has no clause, or the equals sign of a binding is missing before
the end, every statement with the same text up to and with the character at that place
fails in the same way. -/
theorem nativeText_error_of_same_front {sql : String} {problem : Problem} {span : Span}
    {offset : Nat}
    (h : nativeText sql true = .error (.malformed problem span offset))
    (hd : problem.message = "Unbalanced closing brace" ∨
      problem.message = "Syntax error: expected \"=\"") :
    (problem.message = "Unbalanced closing brace" → span.start < byteLength sql.toList) ∧
      ∀ before c after, sql.toList = before ++ c :: after → byteLength before = span.start →
        ∀ u : String, before ++ [c] <+: u.toList → '{' ∈ u.toList →
          nativeText u true = .error (.malformed problem span offset) := by
  obtain ⟨-, f, hf, he⟩ := nativeText_eq_error_iff.1 h
  obtain ⟨rfl, rfl, rfl⟩ := StatementError.malformed.inj he
  refine ⟨fun hu => ?_, fun before c after hsql hbefore u hprefix hbrace => ?_⟩
  · obtain ⟨after, hsql⟩ := exists_of_unbalanced hf hu
    have hpos := '}'.utf8Size_pos
    rw [hsql, byteLength_append, byteLength_cons]
    show byteLength f.before < _
    omega
  · obtain ⟨rest, hrest, -⟩ := exists_explains hf
    obtain ⟨rfl, -⟩ := append_inj_byteLength (hsql.symm.trans hrest) hbefore
    obtain ⟨after', hu⟩ := hprefix
    rw [List.append_assoc] at hu
    have hread := readStatement_of_definite hf hd hsql after'
    exact nativeText_eq_error_iff.2 ⟨hbrace, f, by rw [← hu]; exact hread, rfl⟩

/-- What follows the character at the place may open a literal that is not closed. -/
theorem nativeText_error_of_same_front_unbound :
    nativeText "é {? x} {fn y}" true = .error (.malformed (.expected "=") ⟨6, 6⟩ 5) ∧
      nativeText "é \x7b? x 'y" true = .error (.malformed (.expected "=") ⟨6, 6⟩ 5) := by
  have h : nativeText "é {? x} {fn y}" true =
      .error (.malformed (.expected "=") ⟨6, 6⟩ 5) := by decide +kernel
  refine ⟨h, ?_⟩
  exact (nativeText_error_of_same_front h (.inr rfl)).2 "é \x7b? ".toList 'x' "\x7d {fn y}".toList
    (by decide) (by decide) _ (by decide) (by decide)

end EscapeClause
