import EscapeClause.Config
import EscapeClause.Json.Record
import EscapeClause.Session.Error

/-! Configuration files. What reads the text of one is a parameter, and any reader of records
can take its place. -/

namespace EscapeClause

/-- A reader of records with one field, a boolean: `read name initial text` is the field `name`
of the record that the text holds, which is `initial` where it is missing. -/
abbrev RecordReader := String → Bool → String → Except Json.ReadError Bool

namespace Config

/-- The configuration in the contents of the file at `path`. A missing member keeps its
default. -/
def loadBy (read : RecordReader) (path : String) (contents : Contents) :
    Except SessionError Config :=
  match contents.text with
  | .error failure => .error (.unreadable failure)
  | .ok text =>
    match read fieldName ({} : Config).escapeProcessing text with
    | .error source => .error (.config path source)
    | .ok b => .ok ⟨b⟩

/-- The configuration as the reader of this library takes it from the file. -/
def load : String → Contents → Except SessionError Config := loadBy Json.Record.read

end Config

end EscapeClause
