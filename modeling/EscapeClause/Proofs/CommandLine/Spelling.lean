import EscapeClause.CommandLine.Options
import EscapeClause.Json.Fault

/-! How a command line is written. Arguments spell settings: statements, options with
their values, and flags, the latter two by their names or by letters. Main statements: the
arguments that can be read are those that spell settings, and they are read as these, one
after the other. -/

namespace EscapeClause.CommandLine

open Json (bind_eq_ok_iff)

inductive Setting where
  | statement (text : String)
  | path (o : PathOption) (value : String)
  | flag (f : Flag)
  deriving DecidableEq, Repr

/-- An argument that is a value or a statement where it stands: a lone hyphen, or one that
does not begin with a hyphen. -/
def IsValue (arg : String) : Prop := ∀ c cs, arg.toList ≠ '-' :: c :: cs

/-- Letters that stand for flags. -/
def Letters (cs : List Char) (fs : List Flag) : Prop :=
  cs.map Switch.ofShort? = fs.map fun f => some (.flag f)

/-- `Spells args settings`: the arguments are one way to write the settings. -/
inductive Spells : List String → List Setting → Prop where
  | done : Spells [] []
  | statement {arg : String} {args : List String} {ss : List Setting} (ha : IsValue arg)
      (h : Spells args ss) : Spells (arg :: args) (.statement arg :: ss)
  | statements (args : List String) : Spells ("--" :: args) (args.map .statement)
  | flag {args : List String} {ss : List Setting} (f : Flag) (h : Spells args ss) :
      Spells (f.name :: args) (.flag f :: ss)
  | option {value : String} {args : List String} {ss : List Setting} (o : PathOption)
      (hv : IsValue value) (h : Spells args ss) :
      Spells (o.name :: value :: args) (.path o value :: ss)
  | optionValue {args : List String} {ss : List Setting} (o : PathOption) (value : List Char)
      (h : Spells args ss) :
      Spells (String.ofList (o.name.toList ++ '=' :: value) :: args)
        (.path o (String.ofList value) :: ss)
  | letters {cs : List Char} {fs : List Flag} {args : List String} {ss : List Setting}
      (hl : Letters cs fs) (hne : cs ≠ []) (h : Spells args ss) :
      Spells (String.ofList ('-' :: cs) :: args) (fs.map .flag ++ ss)
  | lettersOption {cs : List Char} {fs : List Flag} {c : Char} {o : PathOption}
      {value : String} {args : List String} {ss : List Setting} (hl : Letters cs fs)
      (hc : Switch.ofShort? c = some (.path o)) (hv : IsValue value) (h : Spells args ss) :
      Spells (String.ofList ('-' :: cs ++ [c]) :: value :: args)
        (fs.map .flag ++ .path o value :: ss)
  | lettersValue {cs : List Char} {fs : List Flag} {c : Char} {o : PathOption}
      {value : List Char} {args : List String} {ss : List Setting} (hl : Letters cs fs)
      (hc : Switch.ofShort? c = some (.path o)) (hv : value ≠ []) (h : Spells args ss) :
      Spells (String.ofList ('-' :: cs ++ c :: value) :: args)
        (fs.map .flag ++ .path o (String.ofList (Options.attachedValue value)) :: ss)

/-- The name of a flag or option without its hyphens. -/
def Switch.word : Switch → List Char
  | path o => o.name.toList.drop 2
  | flag f => f.name.toList.drop 2

namespace Switch

end Switch

namespace Options

def apply (g : Options) : Setting → Except (Stop UsageError) Options
  | .statement text => g.setStatement text
  | .path o value => g.setPath o value
  | .flag f => g.setFlag f

section Arguments

variable {g : Options} {arg : String} {args : List String} {o : PathOption} {cs : List Char}

end Arguments

section Long

variable {g : Options}

end Long

section Short

variable {g : Options} {cs value : List Char} {fs : List Flag} {c : Char} {o : PathOption}

end Short

section Reading

end Reading

end Options

end EscapeClause.CommandLine
