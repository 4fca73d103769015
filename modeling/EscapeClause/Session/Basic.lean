import EscapeClause.Config
import EscapeClause.NativeText
import EscapeClause.Session.Engine
import EscapeClause.Session.Error
import EscapeClause.Session.Event

/-! A session stands in front of an engine and gives it native text only. Every call
answers with a result, the session behind it and the events it reports. A closed session
answers nothing but that it is closed. -/

namespace EscapeClause

structure Session (σ γ : Type) where
  engine : Engine σ γ
  state : σ
  config : Config := {}
  isClosed : Bool := false

/-- A statement as the engine has accepted it. -/
structure Prepared (γ : Type) where
  sql : String
  command : γ
  returnsValue : Bool
  deriving DecidableEq, Repr

/-- A statement handle with a setting of its own. -/
structure Statement where
  escapeProcessing : Bool
  deriving DecidableEq, Repr

/-- What a call gives back, with the session behind it and the events in order. -/
structure Outcome (σ γ α : Type) where
  result : Except SessionError α
  session : Session σ γ
  events : List Event

/-- Whether a statement opens with a binding of its return value. -/
def opensWithBinding (cs : List Char) : Bool :=
  match Text.dropGap cs with
  | '{' :: rest => (Text.dropGap rest).head? == some '?'
  | _ => false

namespace Session

variable {σ γ : Type}

/-- The native text of a statement, if it has one, with what is reported about it. -/
def process (sql : String) (escapeProcessing : Bool) : Except SessionError String × List Event :=
  match nativeText sql escapeProcessing with
  | .ok native => (.ok native.text, [.processed sql native.text])
  | .error e => (.error (.statement sql e), [.unprocessed sql e])

/-- The text that the engine would be given. -/
def nativeSql (s : Session σ γ) (sql : String) : Outcome σ γ String :=
  if s.isClosed then ⟨.error .closed, s, []⟩
  else
    let (result, events) := process sql true
    ⟨result, s, events⟩

/-- Gives the native text of a statement to the engine. -/
def submit (s : Session σ γ) (sql : String) (escapeProcessing : Bool) :
    Outcome σ γ (Prepared γ) :=
  if s.isClosed then ⟨.error .closed, s, []⟩
  else match process sql escapeProcessing with
    | (.error e, events) => ⟨.error e, s, events⟩
    | (.ok native, events) =>
      match s.engine.prepare s.state native with
      | (.error reason, state) =>
        ⟨.error (.rejected reason), { s with state }, events ++ [.rejected native reason]⟩
      | (.ok command, state) =>
        ⟨.ok ⟨native, command, escapeProcessing && opensWithBinding sql.toList⟩,
          { s with state }, events⟩

def prepareStatement (s : Session σ γ) (sql : String) : Outcome σ γ (Prepared γ) :=
  s.submit sql true

/-- Prepares a call of a procedure, which may bind its return value. -/
def prepareCall (s : Session σ γ) (sql : String) : Outcome σ γ (Prepared γ) :=
  s.submit sql true

/-- A handle with the setting of the configuration. -/
def createStatement (s : Session σ γ) : Outcome σ γ Statement :=
  if s.isClosed then ⟨.error .closed, s, []⟩ else ⟨.ok ⟨s.config.escapeProcessing⟩, s, []⟩

/-- Closes the session. Only the first time is reported. -/
def close (s : Session σ γ) : Outcome σ γ Unit :=
  ⟨.ok (), { s with isClosed := true }, if s.isClosed then [] else [.closed]⟩

end Session

/-- Prepares a statement under the setting of the handle. -/
def Statement.prepare {σ γ : Type} (h : Statement) (s : Session σ γ) (sql : String) :
    Outcome σ γ (Prepared γ) :=
  s.submit sql h.escapeProcessing

end EscapeClause
