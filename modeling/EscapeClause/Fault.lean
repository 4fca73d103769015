import EscapeClause.Span
import EscapeClause.Text.Location

/-! What can be wrong with a statement, and where. A `Problem` is a cause, worded by
`Problem.message`. A `Fault` adds the text in front of it, and a `StatementError` is
what callers see: the byte span and the character offset of that place. -/

namespace EscapeClause

inductive Problem where
  | malformed (message : String)
  | unterminated (what : String)
  | unbalancedClosing
  | expected (token : String)
  deriving DecidableEq, Repr

namespace Problem

def message : Problem → String
  | malformed message => message
  | unterminated what => "Unterminated " ++ what
  | unbalancedClosing => "Unbalanced closing brace"
  | expected token => "Syntax error: expected \"" ++ token ++ "\""

/-- The token that should have stood there, where only one would do. -/
def expected? : Problem → Option String
  | expected token => some token
  | _ => none

end Problem

inductive StatementError where
  | missingText (name : String)
  | malformed (problem : Problem) (span : Span) (offset : Nat)
  deriving DecidableEq, Repr

namespace StatementError

/-- A problem at a byte position of a statement. A position that is no character
boundary of the statement is its own character offset. -/
def atByte (problem : Problem) (sql : String) (p : Nat) : StatementError :=
  malformed problem (Span.point p) (Text.charsBefore sql.toList p)

def message : StatementError → String
  | missingText name => "Invalid value for " ++ name ++ ": no statement text"
  | malformed problem _ offset => problem.message ++ " at position " ++ toString offset

def span? : StatementError → Option Span
  | missingText _ => none
  | malformed _ span _ => some span

def offset? : StatementError → Option Nat
  | missingText _ => none
  | malformed _ _ offset => some offset

def expected? : StatementError → Option String
  | missingText _ => none
  | malformed problem _ _ => problem.expected?

def isMalformed : StatementError → Bool
  | missingText _ => false
  | malformed .. => true

end StatementError

/-- A problem right after the text `before`. -/
structure Fault where
  problem : Problem
  before : List Char
  deriving DecidableEq, Repr

namespace Fault

/-- The same fault seen from further back, with `text` in front. -/
def behind (text : List Char) (f : Fault) : Fault := { f with before := text ++ f.before }

theorem behind_behind (f : Fault) (cs ds : List Char) :
    (f.behind ds).behind cs = f.behind (cs ++ ds) :=
  congrArg (Fault.mk f.problem) (List.append_assoc cs ds f.before).symm

def error (f : Fault) : StatementError :=
  .malformed f.problem (Span.point (Text.byteLength f.before)) f.before.length

theorem error_behind (f : Fault) (text : List Char) :
    (f.behind text).error =
      .malformed f.problem (Span.point (Text.byteLength text + Text.byteLength f.before))
        (text.length + f.before.length) := by
  rw [error, behind, Text.byteLength_append, List.length_append]

theorem error_eq_atByte (f : Fault) (after : List Char) :
    f.error = .atByte f.problem (String.ofList (f.before ++ after)) (Text.byteLength f.before) := by
  simp [error, StatementError.atByte, Text.charsBefore_byteLength]

end Fault

end EscapeClause
