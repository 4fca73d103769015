import EscapeClause.Text.Line
import EscapeClause.Text.Location

/-! What can be wrong with a JSON text that is read for a known shape, and where. A text
ends too early, is not JSON, or is JSON of another shape. A `Fault` keeps what was not
read yet, and a `ReadError` is what callers see: the line and the byte column. -/

namespace EscapeClause.Json

/-- What a text breaks off in. -/
inductive Unfinished where
  | value
  | list
  | object
  | string
  deriving DecidableEq, Repr

namespace Unfinished

def name : Unfinished → String
  | value => "value"
  | list => "list"
  | object => "object"
  | string => "string"

def article : Unfinished → String
  | object => "an"
  | _ => "a"

end Unfinished

/-- The shape of a value, as far as its beginning shows it. -/
inductive Shape where
  | null
  | boolean (b : Bool)
  | number
  | string
  | list
  | object
  deriving DecidableEq, Repr

def Shape.name : Shape → String
  | null => "null"
  | boolean _ => "boolean"
  | number => "number"
  | string => "string"
  | list => "sequence"
  | object => "map"

/-- A list or an object. -/
inductive Bracket where
  | list
  | object
  deriving DecidableEq, Repr

namespace Bracket

def closer : Bracket → Char
  | list => ']'
  | object => '}'

def unfinished : Bracket → Unfinished
  | list => .list
  | object => .object

end Bracket

inductive Category where
  | tooShort
  | notJson
  | wrongShape
  deriving DecidableEq, Repr

inductive Cause where
  | ended (inside : Unfinished)
  | noValue
  | noWord
  | noKey
  | noColon
  | noCommaOrEnd (bracket : Bracket)
  | trailingCharacters
  | invalidNumber
  | numberOutOfRange
  | invalidEscape
  | unpairedSurrogate
  | controlCharacter
  | wrongShape (found : Shape) (expected : String)
  | repeatedField (name : String)
  /-- What a reader finds wrong apart from these. -/
  | reported (category : Category) (message : String)
  deriving DecidableEq, Repr

namespace Cause

def category : Cause → Category
  | ended _ => .tooShort
  | wrongShape .. | repeatedField _ => .wrongShape
  | reported category _ => category
  | _ => .notJson

def message : Cause → String
  | ended inside => "EOF while parsing " ++ inside.article ++ " " ++ inside.name
  | noValue => "expected value"
  | noWord => "expected ident"
  | noKey => "key must be a string"
  | noColon => "expected `:`"
  | noCommaOrEnd bracket => "expected `,` or `" ++ bracket.closer.toString ++ "`"
  | trailingCharacters => "trailing characters"
  | invalidNumber => "invalid number"
  | numberOutOfRange => "number out of range"
  | invalidEscape => "invalid escape"
  | unpairedSurrogate => "lone leading surrogate in hex escape"
  | controlCharacter => "control character found while parsing a string"
  | wrongShape found expected => "invalid type: " ++ found.name ++ ", expected " ++ expected
  | repeatedField name => "duplicate field `" ++ name ++ "`"
  | reported _ message => message

end Cause

structure Fault where
  cause : Cause
  rest : List Char
  deriving DecidableEq, Repr

theorem bind_eq_ok_iff {ε α β : Type} {x : Except ε α} {f : α → Except ε β} {b : β} :
    x >>= f = .ok b ↔ ∃ a, x = .ok a ∧ f a = .ok b := by
  rcases x with e | a
  · simp [bind, Except.bind]
  · simp [bind, Except.bind]

/-- A cause at the end of the part of a text that was read. -/
structure ReadError where
  cause : Cause
  line : Nat
  column : Nat
  deriving DecidableEq, Repr

def ReadError.message (e : ReadError) : String :=
  e.cause.message ++ " at line " ++ toString e.line ++ " column " ++ toString e.column

/-- Places a fault in the whole text. Lines count from one, and the column is the byte
length of the begun line. -/
def Fault.error (text : List Char) (f : Fault) : ReadError :=
  let before := text.take (text.length - f.rest.length)
  ⟨f.cause, before.count '\n' + 1, Text.byteLength (Text.begunLine before)⟩

end EscapeClause.Json
