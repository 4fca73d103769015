import EscapeClause.Literal

/-! A cursor walks over a text by byte positions. Reading needs a position between two
characters; moving by a count of bytes can leave it, and then reading fails until the
cursor is back on a boundary. A failed step does not move the cursor. Positions and counts
are words of 64 bits, whose sum wraps. -/

namespace EscapeClause

structure Cursor where
  text : String
  pos : Nat := 0
  deriving DecidableEq, Repr

namespace Cursor

/-- Why nothing can be read: the cursor does not stand between two characters. -/
inductive Stuck where
  | offBoundary
  deriving DecidableEq, Repr

/-- The text on the two sides of the cursor. -/
def sides (c : Cursor) : Except Stuck (List Char × List Char) :=
  match Text.locate c.pos c.text.toList with
  | .boundary before after => .ok (before, after)
  | _ => .error .offBoundary

/-- The next character, or nothing at the end. -/
def peek (c : Cursor) : Except Stuck (Option Char) :=
  c.sides.map fun s => s.2.head?

/-- Reads the next character and moves behind it. -/
def advance (c : Cursor) : Except Stuck (Option Char × Cursor) :=
  c.sides.map fun s =>
    match s.2 with
    | [] => (none, c)
    | x :: _ => (some x, { c with pos := c.pos + x.utf8Size })

/-- The sum of a position and a count as a word of 64 bits. A text in memory is shorter than
half of the words there are, so that a lesser count never makes the sum wrap. -/
def wordSum (p count : Nat) : Nat :=
  if count < UInt64.size / 2 then p + count else (p + count) % UInt64.size

theorem wordSum_of_lt {p count : Nat} (h : count < UInt64.size / 2) :
    wordSum p count = p + count :=
  if_pos h

/-- Moves by a count of bytes, at most to the end. The sum is taken before the end is looked
at, and wraps if it is too large for a word. -/
def advanceBytes (c : Cursor) (count : Nat) : Cursor :=
  { c with pos := min (wordSum c.pos count) (Text.byteLength c.text.toList) }

def skipGap (c : Cursor) : Except Stuck Cursor :=
  c.sides.map fun s => { c with pos := c.pos + Text.byteLength (Text.gap s.2) }

/-- The word at the cursor, which does not move. -/
def word (c : Cursor) : Except Stuck String :=
  c.sides.map fun s => String.ofList (Text.word s.2)

/-- Moves behind the literal or comment at the cursor, or by one byte. -/
def passLiteral (c : Cursor) : Except StatementError Cursor :=
  (Literal.endPosition c.text c.pos).map fun p => { c with pos := p }

inductive Step where
  | peek
  | advance
  | advanceBytes (count : Nat)
  | skipGap
  | word
  | passLiteral
  deriving DecidableEq, Repr

inductive Answer where
  | character (c : Option Char)
  | word (text : String)
  | moved
  | offBoundary
  | failed (error : StatementError)
  deriving DecidableEq, Repr

def step (c : Cursor) : Step → Answer × Cursor
  | .peek =>
    match c.peek with
    | .ok x => (.character x, c)
    | .error _ => (.offBoundary, c)
  | .advance =>
    match c.advance with
    | .ok (x, c) => (.character x, c)
    | .error _ => (.offBoundary, c)
  | .advanceBytes count => (.moved, c.advanceBytes count)
  | .skipGap =>
    match c.skipGap with
    | .ok c => (.moved, c)
    | .error _ => (.offBoundary, c)
  | .word =>
    match c.word with
    | .ok text => (.word text, c)
    | .error _ => (.offBoundary, c)
  | .passLiteral =>
    match c.passLiteral with
    | .ok c => (.moved, c)
    | .error error => (.failed error, c)

/-- The cursor after a sequence of steps. -/
def run (c : Cursor) (steps : List Step) : Cursor := steps.foldl (fun c s => (c.step s).2) c

@[simp] theorem run_nil (c : Cursor) : c.run [] = c := rfl

@[simp] theorem run_cons (c : Cursor) (s : Step) (steps : List Step) :
    c.run (s :: steps) = (c.step s).2.run steps := rfl

theorem sides_eq_ok_iff {c : Cursor} {before after : List Char} :
    c.sides = .ok (before, after) ↔
      c.text.toList = before ++ after ∧ c.pos = Text.byteLength before := by
  rw [← Text.locate_eq_boundary_iff, sides]
  cases Text.locate c.pos c.text.toList <;> simp

end Cursor

end EscapeClause
