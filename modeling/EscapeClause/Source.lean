/-! Texts that come from outside as bytes: the contents of a file, or standard input.
Only bytes that are UTF-8 make a text. -/

namespace EscapeClause

/-- Why a file or an input gives no text. -/
inductive ReadFailure where
  | notFound
  | notUtf8
  | refused (reason : String)
  deriving DecidableEq, Repr

def ReadFailure.message : ReadFailure → String
  | notFound => "No such file or directory (os error 2)"
  | notUtf8 => "stream did not contain valid UTF-8"
  | refused reason => reason

/-- What can be had of a file or an input before its bytes are looked at. -/
abbrev Contents := Except ReadFailure ByteArray

def Contents.text (c : Contents) : Except ReadFailure String := do
  match String.fromUTF8? (← c) with
  | some text => return text
  | none => throw .notUtf8

end EscapeClause
