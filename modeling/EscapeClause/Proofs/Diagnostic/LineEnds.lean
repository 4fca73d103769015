import EscapeClause.Proofs.Diagnostic

/-! The line ends in a diagnostic. The quoted line begins behind a line feed, but ends in front
of a carriage return too, so only behind the fault it is free of carriage returns. Main
statement: a diagnostic has one line feed behind its message, the carriage returns that the
line has in front of the fault, and one line feed behind the quoted line. -/

namespace EscapeClause

open Text

namespace Text

theorem isLineEnd_of_isDigit {c : Char} (h : c.isDigit = true) : isLineEnd c = false := by
  rw [isLineEnd, Bool.or_eq_false_iff, beq_eq_false_iff_ne, beq_eq_false_iff_ne]
  constructor
  · rintro rfl
    cases h
  · rintro rfl
    cases h

theorem filter_isLineEnd_lineRest (after : List Char) : (lineRest after).filter isLineEnd = [] :=
  List.filter_eq_nil_iff.2 fun _ hc => by simp [isLineEnd_of_mem_lineRest hc]

/-- The line ends of a begun line are its carriage returns. -/
theorem filter_isLineEnd_begunLine (before : List Char) :
    (begunLine before).filter isLineEnd = (begunLine before).filter (· == '\r') := by
  refine List.filter_congr fun c hc => ?_
  have hne : c ≠ '\n' := by
    rintro rfl
    exact not_mem_begunLine before hc
  simp [isLineEnd, hne]

end Text

namespace Cause

variable (cause : Cause) (sql : String) (span : Span) (offset : Nat)

theorem message_statement :
    (SessionError.statement sql (.malformed cause.problem span offset)).message =
      "Failed to prepare statement: " ++ (cause.message ++ " at position " ++ toString offset) := by
  rw [← cause.message_problem]
  rfl

theorem filter_isLineEnd_toString : (toString offset).toList.filter isLineEnd = [] := by
  refine List.filter_eq_nil_iff.2 fun c hc => ?_
  rw [Nat.toString_eq_repr, Nat.repr_eq_ofList_toDigits, String.toList_ofList] at hc
  simp [isLineEnd_of_isDigit (Nat.isDigit_of_mem_toDigits (by decide) (by decide) hc)]

/-- The message of a faulty statement is a single line. -/
theorem filter_isLineEnd_message :
    (SessionError.statement sql (.malformed cause.problem span offset)).message.toList.filter
      isLineEnd = [] := by
  have hcause : cause.message.toList.filter isLineEnd = [] := by
    cases cause with
    | unclosed kind => cases kind <;> decide +kernel
    | _ => decide +kernel
  have hfront : "Failed to prepare statement: ".toList.filter isLineEnd = [] := by decide +kernel
  have hback : " at position ".toList.filter isLineEnd = [] := by decide +kernel
  rw [message_statement]
  simp only [String.toList_append, List.filter_append, hcause, hfront, hback,
    filter_isLineEnd_toString, List.append_nil]

end Cause

namespace SessionError

/-- The caret stands under the character behind the place, if that is no line end. -/
theorem getElem?_line {before after : List Char} (h : ∀ c ∈ after.head?, isBlank c = false) :
    (begunLine before ++ lineRest after)[(begunLine before).length]? = after.head? := by
  rw [List.getElem?_append_right (Nat.le_refl _), Nat.sub_self]
  cases after with
  | nil => rfl
  | cons c after => simp [lineRest, isLineEnd_of_not_isBlank (h c rfl)]

theorem filter_isLineEnd_pointer (before after : List Char) :
    (pointer before after).filter isLineEnd =
      (begunLine before).filter (· == '\r') ++ ['\n'] := by
  have hcaret : isLineEnd '^' = false := by decide
  have hspace : isLineEnd ' ' = false := by decide
  have hfeed : isLineEnd '\n' = true := by decide
  simp [pointer, List.filter_append, filter_isLineEnd_lineRest, filter_isLineEnd_begunLine,
    hcaret, hspace, hfeed]

end SessionError

variable {sql : String} {e : StatementError}

/-- The line that is quoted for a faulty statement has no line feed, and its carriage returns
stand in front of the fault. So a diagnostic has two line ends, both line feeds, exactly if no
carriage return stands between the fault and the last line feed in front of it. -/
theorem diagnostic_line_ends (h : nativeText sql true = .error e) :
    ∃ before after, sql.toList = before ++ after ∧
      e.span? = some (Span.point (byteLength before)) ∧
      (SessionError.statement sql e).diagnostic =
        (SessionError.statement sql e).message ++ "\n" ++
          String.ofList (begunLine before ++ lineRest after ++
            '\n' :: List.replicate (begunLine before).length ' ' ++ ['^']) ∧
      (begunLine before ++ lineRest after)[(begunLine before).length]? = after.head? ∧
      (begunLine before ++ lineRest after).filter isLineEnd =
        (begunLine before).filter (· == '\r') ∧
      (SessionError.statement sql e).diagnostic.toList.filter isLineEnd =
        '\n' :: (begunLine before).filter (· == '\r') ++ ['\n'] ∧
      ((SessionError.statement sql e).diagnostic.toList.filter isLineEnd = ['\n', '\n'] ↔
        '\r' ∉ begunLine before) := by
  obtain ⟨-, f, hf, rfl⟩ := nativeText_eq_error_iff.1 h
  obtain ⟨after, hsql, hafter⟩ := exists_after_of_readStatement hf
  obtain ⟨-, -, cause, hproblem, -⟩ := exists_explains hf
  have hsides : (SessionError.statement sql f.error).sides? = some (f.before, after) :=
    SessionError.sides?_statement_eq_some_iff.2 ⟨_, rfl, hsql, rfl⟩
  have hdiagnostic := SessionError.diagnostic_of_sides?_eq_some hsides
  have hmessage : (SessionError.statement sql f.error).message.toList.filter isLineEnd = [] := by
    rw [Fault.error, hproblem]
    exact cause.filter_isLineEnd_message sql _ _
  have hends : (SessionError.statement sql f.error).diagnostic.toList.filter isLineEnd =
      '\n' :: (begunLine f.before).filter (· == '\r') ++ ['\n'] := by
    simp only [hdiagnostic, String.toList_append, String.toList_ofList, List.filter_append,
      hmessage, SessionError.filter_isLineEnd_pointer]
    rfl
  refine ⟨f.before, after, hsql, rfl, hdiagnostic, SessionError.getElem?_line hafter, ?_, hends, ?_⟩
  · rw [List.filter_append, filter_isLineEnd_lineRest, filter_isLineEnd_begunLine, List.append_nil]
  · rw [hends, List.filter_beq]
    simp [List.count_eq_zero]

/-- The carriage return of the second line end is not quoted, and the one behind it is. -/
theorem diagnostic_line_ends_second_line :
    nativeText "é\r\na\r\x7d\x7b" true = .error (.malformed .unbalancedClosing ⟨6, 6⟩ 5) ∧
      (SessionError.statement "é\r\na\r\x7d\x7b"
        (.malformed .unbalancedClosing ⟨6, 6⟩ 5)).diagnostic.toList.filter isLineEnd =
        ['\n', '\r', '\n'] := by
  have h : nativeText "é\r\na\r\x7d\x7b" true =
      .error (.malformed .unbalancedClosing ⟨6, 6⟩ 5) := by
    decide +kernel
  obtain ⟨before, after, hsql, hspan, -, -, -, hends, -⟩ := diagnostic_line_ends h
  have hplace : byteLength before = byteLength ['é', '\r', '\n', 'a', '\r'] := by
    have hstart : (⟨6, 6⟩ : Span) = Span.point (byteLength before) := Option.some.inj hspan
    exact (congrArg Span.start hstart).symm.trans (by decide)
  have htext : ['é', '\r', '\n', 'a', '\r'] ++ ['}', '{'] = before ++ after := by
    rw [← hsql]
    decide +kernel
  obtain ⟨rfl, -⟩ := append_inj_byteLength htext hplace.symm
  exact ⟨h, hends⟩

/-- The line that a diagnostic quotes can have a line end. -/
theorem not_diagnostic_quotes_one_line :
    ¬ ∀ (sql : String) (e : StatementError), nativeText sql true = .error e →
      (SessionError.statement sql e).diagnostic.toList.filter isLineEnd = ['\n', '\n'] := by
  intro h
  have he : nativeText "a\r\x7d\x7b" true = .error (.malformed .unbalancedClosing ⟨2, 2⟩ 2) := by
    decide +kernel
  have hends := h _ _ he
  revert hends
  decide +kernel

end EscapeClause
