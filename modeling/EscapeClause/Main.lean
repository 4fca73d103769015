import EscapeClause.CommandLine.Run

/-! The program. It reads what a run needs, runs, and prints. -/

namespace EscapeClause.CommandLine

def readFailure : IO.Error → ReadFailure
  | .noFileOrDirectory .. => .notFound
  | e => .refused e.toString

def contentsOf (bytes : IO ByteArray) : IO Contents := do
  try return .ok (← bytes) catch e => return .error (readFailure e)

/-- Gathers what a run with these arguments can ask for. -/
def surroundings (args : List String) : IO Surroundings := do
  let config? ← IO.getEnv Options.configVariable
  let noEscapeProcessing? ← IO.getEnv Options.noEscapeProcessingVariable
  let lookup? (name : String) : Option String :=
    if name = Options.configVariable then config?
    else if name = Options.noEscapeProcessingVariable then noEscapeProcessing?
    else none
  let (paths, wantsInput) := match Options.read args lookup? with
    | .ok o => o.sources
    | .error _ => ([], false)
  let files ← paths.mapM fun (path : String) => do
    return (path, ← contentsOf (IO.FS.readBinFile path))
  let input ← if wantsInput then contentsOf (do (← IO.getStdin).readBinToEnd)
    else pure (.ok ByteArray.empty)
  return ⟨lookup?, fun path => (files.lookup path).getD (.error .notFound), input⟩

end EscapeClause.CommandLine

open EscapeClause.CommandLine in
/-- Exits with 2 when the command line is not accepted. -/
def main (args : List String) : IO UInt32 := do
  match run args (← surroundings args) with
  | .rejected e =>
    IO.eprintln ("error: " ++ reprStr e)
    return 2
  | .finished o =>
    IO.eprint o.stderr
    IO.print o.stdout
    return o.exit.toUInt32
