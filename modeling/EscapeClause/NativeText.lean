import EscapeClause.Clause.Nesting

/-! Escape processing of a statement. In the native text the marks of the clauses are
blanks, so that everything else keeps its place, and literals, comments and native
literals come through as they are. -/

namespace EscapeClause

/-- The text for an engine. It is the `submitted` statement itself where there was
nothing to do, and otherwise a text of its own, also if that has the same characters. -/
inductive NativeText where
  | submitted (sql : String)
  | built (text : String)
  deriving DecidableEq, Repr

namespace NativeText

def text : NativeText → String
  | submitted sql => sql
  | built text => text

def ofItems (sql : String) (items : List Item) : NativeText :=
  if items.any Item.opensBrace then built (String.ofList (items.flatMap Item.output))
  else submitted sql

end NativeText

/-- The native text of a statement. A statement without an opening brace is not even
read, so it cannot fail. -/
def nativeText (sql : String) (escapeProcessing : Bool) : Except StatementError NativeText :=
  if escapeProcessing && sql.toList.contains '{' then
    match readStatement sql.toList with
    | .ok items => .ok (.ofItems sql items)
    | .error f => .error f.error
  else .ok (.submitted sql)

/-- The native text of a statement that may be missing. -/
def nativeText? (sql : Option String) (escapeProcessing : Bool) :
    Except StatementError NativeText :=
  match sql with
  | some sql => nativeText sql escapeProcessing
  | none => .error (.missingText "SQL")

end EscapeClause
