/-! Log records: a level, a message and named texts, written on one line unless a text
has line ends of its own. -/

namespace EscapeClause.Log

inductive Level where
  | debug
  | info
  | warn
  deriving DecidableEq, Repr

def Level.name : Level → String
  | debug => "DEBUG"
  | info => "INFO"
  | warn => "WARN"

/-- Of two levels the one that is shown more widely is the more severe one. -/
def Level.severity : Level → Nat
  | debug => 0
  | info => 1
  | warn => 2

structure Record where
  level : Level
  message : String
  fields : List (String × String)
  deriving DecidableEq, Repr

namespace Record

/-- The level in a column of its own, aligned to the right. -/
def levelColumn (r : Record) : String := String.ofList (r.level.name.toList.leftpad 5 ' ')

def fieldText (field : String × String) : String := " " ++ field.1 ++ "=" ++ field.2

def line (r : Record) : String :=
  r.levelColumn ++ " " ++ r.message ++ String.join (r.fields.map fieldText)

/-- A record as a line, if records of its level are written where `least` is the least severe
level to be written. -/
def write (least : Level) (r : Record) : String :=
  if least.severity ≤ r.level.severity then r.line ++ "\n" else ""

end Record

end EscapeClause.Log
