import EscapeClause.CommandLine.Options
import EscapeClause.Config.File
import EscapeClause.Session.Basic

/-! A run of the command line: the options, the configuration, the statement, and its
native text for an engine that only echoes it. The native text is printed whole or not
at all; records and errors go to the error stream. How arguments are read, how a file is read
as a record, and how log records and errors are worded is left to a toolkit. -/

namespace EscapeClause.CommandLine

/-- What a run finds around it: variables, files and the standard input. -/
structure Surroundings where
  lookup? : String → Option String
  file : String → Contents
  input : Contents

structure Output where
  exit : Nat
  stdout : String
  stderr : String
  deriving DecidableEq, Repr

inductive Result (ε : Type) where
  | rejected (e : ε)
  | finished (o : Output)
  deriving DecidableEq, Repr

/-- What a run relies on. `parse` reads arguments and variables, `read` reads a record from the
text of a file, `write` words a log record where those from a least severe level on are written,
and `describe` words an error with what lies behind it. -/
structure Toolkit (ε : Type) where
  parse : List String → (String → Option String) → Except (Stop ε) Options
  read : RecordReader
  write : Log.Level → Log.Record → String
  describe : String → Option String → String

def configLoaded (c : Config) : Log.Record :=
  ⟨.debug, "Loaded session config", [("config",
    "SessionConfig \x7b escape_processing: " ++ Config.flagText c.escapeProcessing ++ " \x7d")]⟩

def returnValueBound : Log.Record :=
  ⟨.info, "Statement binds a return value to its first parameter", []⟩

namespace Options

/-- The least severe level of the records that are written. -/
def leastLevel (o : Options) : Log.Level := if o.verbose then .debug else .info

/-- The statement: the argument, else the file, else the standard input. -/
def loadStatement (o : Options) (s : Surroundings) : Except ReadFailure String :=
  match o.sql, o.file with
  | some sql, _ => .ok sql
  | none, some path => (s.file path).text
  | none, none => s.input.text

/-- What a run has to read: these files, and perhaps the standard input. -/
def sources (o : Options) : List String × Bool :=
  match o.sql, o.file with
  | some _, _ => (o.config.toList, false)
  | none, some path => (o.config.toList ++ [path], false)
  | none, none => (o.config.toList, true)

end Options

namespace Toolkit

variable {ε : Type} (t : Toolkit ε)

/-- What is written of records. -/
def logText (o : Options) (records : List Log.Record) : String :=
  String.join (records.map (t.write o.leastLevel))

/-- What is reported of an error that ends a run. -/
def report (message : String) (cause? : Option String) : String :=
  "Error: " ++ t.describe message cause? ++ "\n"

def loadConfig (o : Options) (s : Surroundings) : Except SessionError Config := do
  let config ← match o.config with
    | some path => Config.loadBy t.read path (s.file path)
    | none => .ok {}
  return if o.noEscapeProcessing then { config with escapeProcessing := false } else config

/-- Prints the native text of a statement that was loaded with its configuration. -/
def print (o : Options) (config : Config) (sql : String) : Output :=
  let session : Session Unit String := ⟨Engine.echo, (), config, false⟩
  let prepared := session.submit sql config.escapeProcessing
  let log := configLoaded config :: prepared.events.map Event.record
  match prepared.result with
  | .ok p =>
    let bound := if p.returnsValue then [returnValueBound] else []
    ⟨0, p.sql ++ "\n", t.logText o (log ++ bound)⟩
  | .error (.statement sql e) =>
    ⟨1, "", t.logText o log ++ (SessionError.statement sql e).diagnostic ++ "\n"⟩
  | .error e => ⟨1, "", t.logText o log ++ t.report e.message e.cause?⟩

def execute (o : Options) (s : Surroundings) : Output :=
  match t.loadConfig o s with
  | .error e => ⟨1, "", t.report e.message e.cause?⟩
  | .ok config =>
    match o.loadStatement s with
    | .error failure => ⟨1, "", t.logText o [configLoaded config] ++ t.report failure.message none⟩
    | .ok sql => t.print o config sql

def run (args : List String) (s : Surroundings) : Result ε :=
  match t.parse args s.lookup? with
  | .error (.refused e) => .rejected e
  | .error (.shown text) => .finished ⟨0, text, ""⟩
  | .ok o => .finished (t.execute o s)

/-- The message of an error, and below it the message of its cause. -/
def messages (message : String) (cause? : Option String) : String :=
  message ++ cause?.elim "" fun cause => "\n\nCaused by:\n    " ++ cause

/-- The toolkit that the program runs with. It uses no colours. -/
def standard : Toolkit UsageError :=
  ⟨Options.read, Json.Record.read, Log.Record.write, messages⟩

end Toolkit

def run : List String → Surroundings → Result UsageError := Toolkit.standard.run

end EscapeClause.CommandLine
