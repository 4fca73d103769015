import EscapeClause.Text.Location

/-! Engines, which take native text and give a command for it or reject it. An engine
may keep a state, such as the texts it was given. -/

namespace EscapeClause

structure Engine (σ γ : Type) where
  prepare : σ → String → Except String γ × σ

namespace Engine

/-- The command is the text itself. -/
def echo : Engine Unit String := ⟨fun _ text => (.ok text, ())⟩

def isBrace (c : Char) : Bool := c == '{' || c == '}'

/-- Accepts texts without braces only, and says at which byte the first one stands. -/
def strict : Engine Unit String where
  prepare _ text :=
    if text.toList.any isBrace then
      let before := text.toList.takeWhile fun c => !isBrace c
      (.error ("unexpected escape syntax at " ++ toString (Text.byteLength before)), ())
    else (.ok text, ())

/-- Keeps the texts it is given, and numbers them from one. -/
def recording : Engine (List String) Nat :=
  ⟨fun texts text => (.ok (texts.length + 1), texts ++ [text])⟩

/-- Accepts nothing. -/
def rejecting (reason : String) : Engine Unit String := ⟨fun _ _ => (.error reason, ())⟩

end Engine

end EscapeClause
