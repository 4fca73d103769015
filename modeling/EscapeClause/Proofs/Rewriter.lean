import EscapeClause.NativeText
import EscapeClause.Proofs.Cursor
import EscapeClause.Proofs.Opening

/-! Escape processing in one pass. The rewriter moves a cursor over the statement and
builds its output as it goes: what is blanked is written at once, what is kept is copied
when the next blank comes or at the end. Every cut of the text is checked, and a bad one
leaves the rewriter stuck. -/

namespace EscapeClause

open Text

namespace Text

/-- The characters between two byte positions, if both are boundaries in this order. -/
def slice? (cs : List Char) (start stop : Nat) : Option (List Char) :=
  match locate stop cs with
  | .boundary before _ =>
    match locate start before with
    | .boundary _ part => some part
    | _ => none
  | _ => none

theorem slice?_append (before part after : List Char) :
    slice? (before ++ part ++ after) (byteLength before) (byteLength (before ++ part)) =
      some part := by
  rw [slice?, locate_byteLength]
  dsimp only
  rw [locate_byteLength]

theorem slice?_end (front body : List Char) :
    slice? (front ++ body) (byteLength front) (byteLength (front ++ body)) = some body := by
  have h := slice?_append front body []
  rwa [List.append_nil] at h

end Text

/-- What the rewriter does next: the loop over the statement, what follows the gap of an
opening brace, what follows the question mark of a binding, the word that may be a
marker, or the loop over a native literal. -/
inductive Point where
  | scan
  | opened (brace : Nat)
  | binding
  | word
  | native
  deriving DecidableEq, Repr

/-- The output is there from the first opening brace on. The first `copied` bytes of the
statement have been written to it. -/
structure Rewriter where
  point : Point
  cursor : Cursor
  output : Option (List Char)
  copied : Nat
  level : Nat
  deriving DecidableEq, Repr

/-- How the rewriter ends: with an answer, or at a cut of the text or a decrement that
cannot be carried out. -/
inductive Halt where
  | done (t : NativeText)
  | failed (error : StatementError)
  | stuck
  deriving DecidableEq, Repr

/-- The end of a run that gives an answer. -/
def Halt.ofAnswer : Except StatementError NativeText → Halt
  | .ok t => .done t
  | .error e => .failed e

theorem Halt.ofAnswer_injective : Function.Injective ofAnswer := by
  rintro (e | t) (e' | t') h
  all_goals cases h
  all_goals rfl

namespace Rewriter

def start (sql : String) : Rewriter := ⟨.scan, ⟨sql, 0⟩, none, 0, 0⟩

section Operations

variable (r : Rewriter)

def goto (p : Point) : Rewriter := { r with point := p }

def peek : Except Halt (Option Char) := r.cursor.peek.mapError fun _ => .stuck

def advance : Except Halt Rewriter :=
  match r.cursor.advance with
  | .ok (_, c) => .ok { r with cursor := c }
  | .error _ => .error .stuck

def skipGap : Except Halt Rewriter :=
  match r.cursor.skipGap with
  | .ok c => .ok { r with cursor := c }
  | .error _ => .error .stuck

def passLiteral : Except Halt Rewriter :=
  match r.cursor.passLiteral with
  | .ok c => .ok { r with cursor := c }
  | .error e => .error (.failed e)

/-- Moves over a literal or comment or over a single character. -/
def pass (c : Char) : Except Halt Rewriter :=
  if Piece.mayStartLiteral c then r.passLiteral else r.advance

/-- Copies the statement up to `pos` and writes spaces for the next `count` bytes. -/
def blank (pos count : Nat) : Except Halt Rewriter :=
  match slice? r.cursor.text.toList r.copied pos with
  | some part =>
    .ok { r with
      output := some (r.output.getD [] ++ part ++ List.replicate count ' ')
      copied := pos + count }
  | none => .error .stuck

/-- Blanks the next character, of one byte, and moves over it. -/
def blankNext : Except Halt Rewriter := do
  let r ← r.blank r.cursor.pos 1
  r.advance

/-- Enters a clause or native literal. -/
def enter : Rewriter :=
  { r with output := some (r.output.getD []), level := r.level + 1 }

def leave : Except Halt Rewriter :=
  if r.level = 0 then .error .stuck else .ok { r with level := r.level - 1 }

def finish : Halt :=
  match r.output with
  | none => .done (.submitted r.cursor.text)
  | some out =>
    let cs := r.cursor.text.toList
    match slice? cs r.copied (byteLength cs) with
    | some part => .done (.built (String.ofList (out ++ part)))
    | none => .stuck

/-- The end of the text came too early. -/
def unterminated : Halt :=
  .failed (.atByte Item.unterminatedClause r.cursor.text (byteLength r.cursor.text.toList))

/-- A problem at the cursor. -/
def refuse (problem : Problem) : Halt :=
  .failed (.atByte problem r.cursor.text r.cursor.pos)

def atScan : Except Halt Rewriter := do
  match ← r.peek with
  | none => .error (if r.level = 0 then r.finish else r.unterminated)
  | some c =>
    if c = '{' then
      let r' ← r.enter.advance
      let r' ← r'.skipGap
      return r'.goto (.opened r.cursor.pos)
    else if c = '}' then
      if r.level = 0 then .error (r.refuse .unbalancedClosing)
      else
        let r ← r.leave
        r.blankNext
    else r.pass c

def atOpened (brace : Nat) : Except Halt Rewriter := do
  match ← r.peek with
  | none => .error r.unterminated
  | some c =>
    if c.isDigit then return r.goto .native
    else
      let r ← r.blank brace 1
      if c = '?' then
        let r ← r.blankNext
        let r ← r.skipGap
        return r.goto .binding
      else return r.goto .word

def atBinding : Except Halt Rewriter := do
  if (← r.peek) = some '=' then
    let r ← r.blankNext
    let r ← r.skipGap
    return r.goto .word
  else .error (r.refuse (.expected "="))

def atWord : Except Halt Rewriter :=
  match r.cursor.word with
  | .error _ => .error .stuck
  | .ok text =>
    let count := (Keyword.ofWord? text.toList).elim 0 Keyword.blankLength
    if 0 < count then do
      let r ← r.blank r.cursor.pos count
      return { r with cursor := r.cursor.advanceBytes count, point := .scan }
    else .ok (r.goto .scan)

def atNative : Except Halt Rewriter := do
  match ← r.peek with
  | none => .error r.unterminated
  | some c =>
    if c = '}' then
      let r ← r.advance
      let r ← r.leave
      return r.goto .scan
    else r.pass c

def step : Except Halt Rewriter :=
  match r.point with
  | .scan => r.atScan
  | .opened brace => r.atOpened brace
  | .binding => r.atBinding
  | .word => r.atWord
  | .native => r.atNative

end Operations

/-- The state after a number of steps, or how the run ended before. -/
def run : Nat → Rewriter → Except Halt Rewriter
  | 0, r => .ok r
  | n + 1, r => r.step >>= run n

/-- A run leads from one state to another. -/
def Reaches (r r' : Rewriter) : Prop := ∃ n, run n r = .ok r'

/-- A run ends. -/
def Halts (r : Rewriter) (h : Halt) : Prop := ∃ n, run n r = .error h

/-- Escape processing in one pass gives an answer. Where it is off and in a statement
without an opening brace nothing runs. -/
def Answers (sql : String) (escapeProcessing : Bool) (a : Except StatementError NativeText) :
    Prop :=
  if escapeProcessing && sql.toList.contains '{' then Halts (start sql) (.ofAnswer a)
  else a = .ok (.submitted sql)

end Rewriter

end EscapeClause
