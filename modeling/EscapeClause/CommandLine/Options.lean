/-! The options of the command line, and a reader of them. Arguments are read from left to
right, and the first one that asks for something else or cannot be taken ends the reading. A
setting that no argument gives may come from a variable of the environment. -/

namespace EscapeClause.CommandLine

/-- An option that takes a value. -/
inductive PathOption where
  | file
  | config
  deriving DecidableEq, Repr

inductive Flag where
  | noEscapeProcessing
  | verbose
  | help
  | version
  deriving DecidableEq, Repr

inductive Switch where
  | path (o : PathOption)
  | flag (f : Flag)
  deriving DecidableEq, Repr

namespace Switch

def ofLong? : String → Option Switch
  | "file" => some (path .file)
  | "config" => some (path .config)
  | "no-escape-processing" => some (flag .noEscapeProcessing)
  | "verbose" => some (flag .verbose)
  | "help" => some (flag .help)
  | "version" => some (flag .version)
  | _ => none

def ofShort? : Char → Option Switch
  | 'f' => some (path .file)
  | 'c' => some (path .config)
  | 'v' => some (flag .verbose)
  | 'h' => some (flag .help)
  | 'V' => some (flag .version)
  | _ => none

end Switch

def PathOption.name : PathOption → String
  | file => "--file"
  | config => "--config"

def Flag.name : Flag → String
  | noEscapeProcessing => "--no-escape-processing"
  | verbose => "--verbose"
  | help => "--help"
  | version => "--version"

/-- Why the arguments or the environment are not accepted. -/
inductive UsageError where
  | unknownArgument (arg : String)
  | missingValue (o : PathOption)
  | emptyValue (o : PathOption)
  | repeatedOption (o : PathOption)
  | repeatedFlag (f : Flag)
  | valueForFlag (f : Flag)
  | secondStatement (arg : String)
  | twoStatements
  | badVariable (name value : String)
  deriving DecidableEq, Repr

/-- What ends the reading of the arguments early: a reason to refuse them, or a text that was
asked for. -/
inductive Stop (ε : Type) where
  | refused (e : ε)
  | shown (text : String)
  deriving DecidableEq, Repr

def versionText : String := "sqlescape 0.1.0\n"

def helpLines : List String :=
  ["Translate SQL escape clauses into native SQL",
    "",
    "Usage: sqlescape [OPTIONS] [SQL]",
    "",
    "Arguments:",
    "  [SQL]  Statement to translate (read from --file or stdin when omitted)",
    "",
    "Options:",
    "  -f, --file <FILE>           Read the statement from a file",
    "  -c, --config <CONFIG>       JSON session configuration file",
    "      --no-escape-processing  Pass the statement through without translating escape clauses",
    "  -v, --verbose               Enable verbose output",
    "  -h, --help                  Print help",
    "  -V, --version               Print version"]

def helpText : String := String.join (helpLines.map fun line => line ++ "\n")

structure Options where
  sql : Option String := none
  file : Option String := none
  config : Option String := none
  noEscapeProcessing : Bool := false
  verbose : Bool := false
  deriving DecidableEq, Repr

namespace Options

def setPath (g : Options) (o : PathOption) (value : String) : Except (Stop UsageError) Options :=
  if value.isEmpty then .error (.refused (.emptyValue o))
  else match o with
    | .file =>
      if g.file.isSome then .error (.refused (.repeatedOption o))
      else .ok { g with file := some value }
    | .config =>
      if g.config.isSome then .error (.refused (.repeatedOption o))
      else .ok { g with config := some value }

def setFlag (g : Options) (f : Flag) : Except (Stop UsageError) Options :=
  match f with
  | .noEscapeProcessing =>
    if g.noEscapeProcessing then .error (.refused (.repeatedFlag f))
    else .ok { g with noEscapeProcessing := true }
  | .verbose =>
    if g.verbose then .error (.refused (.repeatedFlag f)) else .ok { g with verbose := true }
  | .help => .error (.shown helpText)
  | .version => .error (.shown versionText)

def setStatement (g : Options) (arg : String) : Except (Stop UsageError) Options :=
  if g.sql.isSome then .error (.refused (.secondStatement arg)) else .ok { g with sql := some arg }

/-- Reads what follows two hyphens: a name, and perhaps a value behind an equals sign.
An option that is left without its value is given back. -/
def readLong (g : Options) (cs : List Char) :
    Except (Stop UsageError) (Options × Option PathOption) :=
  let name := cs.takeWhile fun c => c != '='
  let value := cs.drop (name.length + 1)
  let attached := name.length < cs.length
  match Switch.ofLong? (String.ofList name) with
  | none => .error (.refused (.unknownArgument (String.ofList ('-' :: '-' :: cs))))
  | some (.flag f) =>
    if attached then .error (.refused (.valueForFlag f)) else return (← g.setFlag f, none)
  | some (.path o) =>
    if attached then return (← g.setPath o (String.ofList value), none) else .ok (g, some o)

/-- Takes the equals sign off a value that follows its letter directly. -/
def attachedValue : List Char → List Char
  | '=' :: cs => cs
  | cs => cs

/-- Reads the letters behind one hyphen. What follows the letter of an option is its
value; an option that is left without one is given back. -/
def readShort (g : Options) : List Char → Except (Stop UsageError) (Options × Option PathOption)
  | [] => .ok (g, none)
  | c :: cs =>
    match Switch.ofShort? c with
    | none => .error (.refused (.unknownArgument (String.ofList ['-', c])))
    | some (.flag f) => do readShort (← g.setFlag f) cs
    | some (.path o) =>
      if cs.isEmpty then .ok (g, some o)
      else return (← g.setPath o (String.ofList (attachedValue cs)), none)

/-- Reads arguments that cannot be options any more. -/
def readStatements (g : Options) : List String → Except (Stop UsageError) Options
  | [] => .ok g
  | arg :: args => do readStatements (← g.setStatement arg) args

/-- Reads arguments when the value of `awaited` comes next. A lone hyphen is a value or a
statement, and all that begins with a hyphen otherwise is not. -/
def readArguments (g : Options) (awaited : Option PathOption) :
    List String → Except (Stop UsageError) Options
  | [] =>
    match awaited with
    | some o => .error (.refused (.missingValue o))
    | none => .ok g
  | arg :: args =>
    match awaited, arg.toList with
    | some o, '-' :: _ :: _ => .error (.refused (.missingValue o))
    | some o, _ => do readArguments (← g.setPath o arg) none args
    | none, ['-', '-'] => readStatements g args
    | none, '-' :: '-' :: cs => do
      let (g, awaited) ← g.readLong cs
      readArguments g awaited args
    | none, '-' :: c :: cs => do
      let (g, awaited) ← g.readShort (c :: cs)
      readArguments g awaited args
    | none, _ => do readArguments (← g.setStatement arg) none args

def configVariable : String := "SQLESCAPE_CONFIG"

def noEscapeProcessingVariable : String := "SQLESCAPE_NO_ESCAPE_PROCESSING"

/-- What the variable makes of a path that no argument has given. -/
def withConfigVariable (g : Options) (lookup? : String → Option String) :
    Except (Stop UsageError) Options :=
  match g.config, lookup? configVariable with
  | none, some value => g.setPath .config value
  | _, _ => .ok g

/-- What the variable makes of a flag that no argument has set. -/
def withFlagVariable (g : Options) (lookup? : String → Option String) :
    Except (Stop UsageError) Options :=
  match g.noEscapeProcessing, lookup? noEscapeProcessingVariable with
  | false, some "true" => .ok { g with noEscapeProcessing := true }
  | false, some "false" => .ok g
  | false, some value => .error (.refused (.badVariable noEscapeProcessingVariable value))
  | _, _ => .ok g

/-- The options that arguments and environment give. -/
def read (args : List String) (lookup? : String → Option String) :
    Except (Stop UsageError) Options := do
  let g ← readArguments {} none args
  let g ← g.withConfigVariable lookup?
  let g ← g.withFlagVariable lookup?
  if g.file.isSome && g.sql.isSome then throw (.refused .twoStatements) else return g

end Options

end EscapeClause.CommandLine
