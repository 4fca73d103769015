import EscapeClause.Log
import EscapeClause.Fault

/-! What a session reports to the log. -/

namespace EscapeClause

inductive Event where
  | processed (sql native : String)
  | unprocessed (sql : String) (error : StatementError)
  | rejected (native reason : String)
  | closed
  deriving DecidableEq, Repr

def Event.record : Event → Log.Record
  | processed sql native =>
    ⟨.debug, "Translated statement", [("sql", sql), ("translated", native)]⟩
  | unprocessed sql error =>
    ⟨.warn, "Statement preparation failed", [("sql", sql), ("error", error.message)]⟩
  | rejected native reason =>
    ⟨.warn, "Engine rejected statement", [("sql", native), ("error", reason)]⟩
  | closed => ⟨.debug, "Session closed", []⟩

end EscapeClause
