import EscapeClause.Fault
import EscapeClause.Json.Fault
import EscapeClause.Source

/-! What can go wrong in front of an engine: the session is closed, a statement cannot
be processed, the engine rejects its native text, or a configuration cannot be loaded.
The diagnostic of an error quotes the line of a located fault with a caret under it. -/

namespace EscapeClause

inductive SessionError where
  | closed
  | statement (sql : String) (source : StatementError)
  | rejected (reason : String)
  | unreadable (failure : ReadFailure)
  | config (path : String) (source : Json.ReadError)
  deriving DecidableEq, Repr

namespace SessionError

def message : SessionError → String
  | closed => "Session is closed"
  | statement _ source => "Failed to prepare statement: " ++ source.message
  | rejected reason => "Engine error: " ++ reason
  | unreadable failure => "IO error: " ++ failure.message
  | config path source => "Failed to parse config file '" ++ path ++ "': " ++ source.message

/-- The message of what lies behind the error. -/
def cause? : SessionError → Option String
  | closed => none
  | statement _ source => some source.message
  | rejected reason => some reason
  | unreadable failure => some failure.message
  | config _ source => some source.message

def statementError? : SessionError → Option StatementError
  | statement _ source => some source
  | _ => none

/-- The submitted text on the two sides of the fault, if the fault has a place that is a
character boundary of that text. -/
def sides? : SessionError → Option (List Char × List Char)
  | statement sql source =>
    match source.span? with
    | none => none
    | some span =>
      match Text.locate span.start sql.toList with
      | .boundary before after => some (before, after)
      | _ => none
  | _ => none

/-- The line at a place of a text, and a second line with a caret under the place. -/
def pointer (before after : List Char) : List Char :=
  Text.begunLine before ++ Text.lineRest after ++
    '\n' :: List.replicate (Text.begunLine before).length ' ' ++ ['^']

def diagnostic (e : SessionError) : String :=
  match e.sides? with
  | some (before, after) => e.message ++ "\n" ++ String.ofList (pointer before after)
  | none => e.message

theorem sides?_statement_eq_some_iff {sql : String} {source : StatementError}
    {before after : List Char} :
    (statement sql source).sides? = some (before, after) ↔
      ∃ span, source.span? = some span ∧ sql.toList = before ++ after ∧
        span.start = Text.byteLength before := by
  rw [sides?]
  rcases source.span? with _ | span
  · simp
  · simp only [Option.some.injEq, exists_eq_left', ← Text.locate_eq_boundary_iff]
    rcases Text.locate span.start sql.toList with ⟨b, a⟩ | _ | _ <;> simp

end SessionError

end EscapeClause
