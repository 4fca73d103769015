/-! The configuration of a session and its JSON form, an object with one known member. -/

namespace EscapeClause

/-- Whether statements that a session creates have their escape clauses processed. -/
structure Config where
  escapeProcessing : Bool := true
  deriving DecidableEq, Repr

namespace Config

def fieldName : String := "escape_processing"

def flagText (b : Bool) : String := if b then "true" else "false"

/-- The compact JSON form. -/
def toJson (c : Config) : String :=
  "\x7b\"" ++ fieldName ++ "\":" ++ flagText c.escapeProcessing ++ "\x7d"

end Config

end EscapeClause
