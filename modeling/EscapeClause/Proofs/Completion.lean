import EscapeClause.Proofs.Cause

/-! Unfinished statements. Where a statement ends with clauses or a native literal open,
closing braces are all that it lacks, and it takes one for each. Main statement: a statement
is refused as unterminated exactly if closing braces on a new line make it acceptable, and
only one number of them does. -/

namespace EscapeClause

open Text Grammar

namespace Grammar

/-- A text is read to its end by one sequence of tokens only. -/
theorem Reads.unique {before cs : List Char} {ts us : List Token} (h : Reads before cs ts [])
    (h' : Reads before cs us []) : us = ts := by
  obtain ⟨is, his, rfl⟩ := exists_complete_of_reads h
  exact eq_tokens_of_reads his h'

theorem exists_readStatement_iff_balanced {cs : List Char} {ts : List Token}
    (h : Reads [] cs ts []) : (∃ is, readStatement cs = .ok is) ↔ Balanced ts := by
  constructor
  · rintro ⟨is, his⟩
    obtain ⟨hr, hb⟩ := readStatement_eq_ok_iff_tokens.1 ⟨is, his, rfl⟩
    rwa [h.unique hr] at hb
  · intro hb
    obtain ⟨is, his, -⟩ := readStatement_eq_ok_iff_tokens.2 ⟨h, hb⟩
    exact ⟨is, his⟩

/-- Nothing is open at the end of a statement that is accepted. -/
theorem reached_of_readStatement {cs : List Char} {is : List Item}
    (h : readStatement cs = .ok is) : Reached cs [] 0 := by
  obtain ⟨hr, hb⟩ := readStatement_eq_ok_iff_tokens.1 ⟨is, h, rfl⟩
  have hcs := hr.eq_append
  rw [hcs] at hr
  have hreached := Reached.token hr (balanced_iff_nests.1 hb)
  rwa [← List.append_nil (text _), ← hcs] at hreached

/-- The braces that close a text are as many as are open at its end. -/
theorem Reached.exists_readStatement_iff {cs : List Char} {n k : Nat} (h : Reached cs [] n)
    (hk : 1 ≤ k) :
    (∃ is, readStatement (cs ++ '\n' :: List.replicate k '}') = .ok is) ↔ k = n := by
  obtain ⟨us, hus, hb⟩ := h.exists_reads hk
  rw [exists_readStatement_iff_balanced hus, hb]

end Grammar

section Unfinished

variable {cs : List Char}

/-- The fault of a text that is not terminated stands at its end, where something is open. -/
theorem exists_reached_of_unterminated {f : Fault} (h : readStatement cs = .error f)
    (hf : f.problem = Item.unterminatedClause) : ∃ n, 0 < n ∧ Reached cs [] n := by
  obtain ⟨after, hcs, cause, hproblem, hholds⟩ := exists_explains h
  have hcause : cause = .unfinished := Cause.problem_injective (hproblem.symm.trans hf)
  rw [hcause] at hholds
  obtain ⟨rfl, n, hn, hreached⟩ := hholds
  rw [hcs, List.append_nil]
  exact ⟨n, hn, hreached⟩

/-- A text that closing braces complete is not terminated. -/
theorem unterminated_of_append_line {k : Nat} (hk : 1 ≤ k)
    (h : ∃ is, readStatement (cs ++ '\n' :: List.replicate k '}') = .ok is) :
    ∃ f, readStatement cs = .error f ∧ f.problem = Item.unterminatedClause := by
  cases hcs : readStatement cs with
  | ok is =>
    have hk0 := ((reached_of_readStatement hcs).exists_readStatement_iff hk).1 h
    omega
  | error f =>
    refine ⟨f, rfl, ?_⟩
    by_contra hf
    obtain ⟨is, his⟩ := h
    obtain ⟨g, hg⟩ := exists_error_append_line hcs hf k
    rw [his] at hg
    cases hg

end Unfinished

/-- The statement with `k` closing braces on a line of their own behind it. -/
def withClosings (sql : String) (k : Nat) : String :=
  sql ++ "\n" ++ String.ofList (List.replicate k '}')

section Completion

variable {sql : String}

theorem exists_nativeText_iff (hb : '{' ∈ sql.toList) :
    (∃ t, nativeText sql true = .ok t) ↔ ∃ is, readStatement sql.toList = .ok is := by
  rw [nativeText_of_mem hb]
  cases readStatement sql.toList <;> simp

theorem exists_nativeText_withClosings_iff (hb : '{' ∈ sql.toList) (k : Nat) :
    (∃ t, nativeText (withClosings sql k) true = .ok t) ↔
      ∃ is, readStatement (sql.toList ++ '\n' :: List.replicate k '}') = .ok is := by
  have htext : (withClosings sql k).toList = sql.toList ++ '\n' :: List.replicate k '}' := by
    simp [withClosings]
  have hmem : '{' ∈ (withClosings sql k).toList := by
    rw [htext]
    exact List.mem_append_left _ hb
  rw [exists_nativeText_iff hmem, htext]

/-- The wording of an error tells whether the statement is not terminated. -/
theorem nativeText_unterminated_iff (hb : '{' ∈ sql.toList) :
    (∃ problem span offset, nativeText sql true = .error (.malformed problem span offset) ∧
      problem.message = "Unterminated escape clause") ↔
      ∃ f, readStatement sql.toList = .error f ∧ f.problem = Item.unterminatedClause := by
  constructor
  · rintro ⟨problem, span, offset, he, hm⟩
    obtain ⟨-, f, hf, hfe⟩ := nativeText_eq_error_iff.1 he
    obtain ⟨rfl, -, -⟩ := StatementError.malformed.inj hfe
    obtain ⟨-, -, cause, hproblem, -⟩ := exists_explains hf
    rw [hproblem, cause.message_problem] at hm
    have hcause : cause = .unfinished := Cause.message_injective hm
    rw [hcause] at hproblem
    exact ⟨f, hf, hproblem⟩
  · rintro ⟨f, hf, hproblem⟩
    have he := nativeText_eq_error_iff.2 ⟨hb, f, hf, rfl⟩
    refine ⟨f.problem, _, _, he, ?_⟩
    rw [hproblem]
    rfl

/-- A statement is refused as unterminated if and only if closing braces are all that is
missing, and then there is one number of them that is right. -/
theorem nativeText_unterminated_iff_completes (hb : '{' ∈ sql.toList) :
    ((∃ problem span offset, nativeText sql true = .error (.malformed problem span offset) ∧
      problem.message = "Unterminated escape clause") ↔
        ∃ k, 1 ≤ k ∧ ∃ t, nativeText (withClosings sql k) true = .ok t) ∧
      ∀ k₁ k₂, 1 ≤ k₁ → 1 ≤ k₂ → (∃ t, nativeText (withClosings sql k₁) true = .ok t) →
        (∃ t, nativeText (withClosings sql k₂) true = .ok t) → k₁ = k₂ := by
  rw [nativeText_unterminated_iff hb]
  constructor
  · constructor
    · rintro ⟨f, hf, hproblem⟩
      obtain ⟨n, hn, hreached⟩ := exists_reached_of_unterminated hf hproblem
      exact ⟨n, hn, (exists_nativeText_withClosings_iff hb n).2
        ((hreached.exists_readStatement_iff hn).2 rfl)⟩
    · rintro ⟨k, hk, ht⟩
      exact unterminated_of_append_line hk ((exists_nativeText_withClosings_iff hb k).1 ht)
  · intro k₁ k₂ hk₁ hk₂ ht₁ ht₂
    rw [exists_nativeText_withClosings_iff hb] at ht₁ ht₂
    obtain ⟨f, hf, hproblem⟩ := unterminated_of_append_line hk₁ ht₁
    obtain ⟨n, -, hreached⟩ := exists_reached_of_unterminated hf hproblem
    have h₁ := (hreached.exists_readStatement_iff hk₁).1 ht₁
    have h₂ := (hreached.exists_readStatement_iff hk₂).1 ht₂
    exact h₁.trans h₂.symm

/-- A brace in a comment closes nothing, and the new line ends the comment. -/
theorem nativeText_unterminated_iff_completes_comment :
    '{' ∈ "\x7bcall \x7b1 -- é\x7d".toList ∧
      (∃ problem span offset,
        nativeText "\x7bcall \x7b1 -- é\x7d" true = .error (.malformed problem span offset) ∧
          problem.message = "Unterminated escape clause") ∧
      (∃ t, nativeText "\x7bcall \x7b1 -- é\x7d\n\x7d\x7d" true = .ok t) ∧
      ∀ k, 1 ≤ k →
        (∃ t, nativeText (withClosings "\x7bcall \x7b1 -- é\x7d" k) true = .ok t) → k = 2 := by
  have hmem : '{' ∈ "\x7bcall \x7b1 -- é\x7d".toList := by decide
  have ht : nativeText "\x7bcall \x7b1 -- é\x7d\n\x7d\x7d" true =
      .ok (.built " call \x7b1 -- é\x7d\n\x7d ") := by
    decide +kernel
  obtain ⟨hiff, hunique⟩ := nativeText_unterminated_iff_completes hmem
  exact ⟨hmem, hiff.2 ⟨2, by decide, _, ht⟩, ⟨_, ht⟩,
    fun k hk htk => hunique k 2 hk (by decide) htk ⟨_, ht⟩⟩

end Completion

end EscapeClause
