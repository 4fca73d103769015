import EscapeClause.Fault
import EscapeClause.Text.Blank
import EscapeClause.Text.Line
import EscapeClause.Text.Mark

/-! Literals and comments, whose text takes no part in escape processing. `skip` passes
over the one at the front of a text, or over a single character where none starts.
Main statements: what it passes over and what it leaves make up the text, and it
passes over something unless the text is empty. `endPosition` answers for byte
positions, also for those inside a character. -/

namespace EscapeClause

/-- A literal or comment that runs up to a closing mark. -/
inductive Enclosed where
  | stringLiteral
  | quotedIdentifier
  | dollarQuoted
  | blockComment
  deriving DecidableEq, Repr

namespace Enclosed

def name : Enclosed → String
  | stringLiteral => "string literal"
  | quotedIdentifier => "quoted identifier"
  | dollarQuoted => "dollar-quoted string"
  | blockComment => "block comment"

def opener : Enclosed → List Char
  | stringLiteral => ['\'']
  | quotedIdentifier => ['"']
  | dollarQuoted => ['$', '$']
  | blockComment => ['/', '*']

def closer : Enclosed → List Char
  | stringLiteral => ['\'']
  | quotedIdentifier => ['"']
  | dollarQuoted => ['$', '$']
  | blockComment => ['*', '/']

def unterminated (e : Enclosed) : Problem := .unterminated e.name

end Enclosed

namespace Literal

/-- What starts at the front of a text. A line comment keeps its mark, which is one
of two. -/
inductive Opening where
  | enclosed (kind : Enclosed)
  | lineComment (mark : List Char)
  deriving DecidableEq, Repr

def Opening.mark : Opening → List Char
  | enclosed kind => kind.opener
  | lineComment mark => mark

/-- The literal or comment that starts at the front, with the text behind its mark.
Two dollars count only at the start or after a blank `prev`. -/
def opening? (prev : Option Char) : List Char → Option (Opening × List Char)
  | '\'' :: body => some (.enclosed .stringLiteral, body)
  | '"' :: body => some (.enclosed .quotedIdentifier, body)
  | '$' :: '$' :: body =>
    if prev.all Text.isBlank then some (.enclosed .dollarQuoted, body) else none
  | '/' :: '*' :: body => some (.enclosed .blockComment, body)
  | '/' :: '/' :: body => some (.lineComment ['/', '/'], body)
  | '-' :: '-' :: body => some (.lineComment ['-', '-'], body)
  | _ => none

/-- Splits a literal or comment off, given the text behind its mark, or names the
construct that is not closed. A line comment ends before its line end. -/
def Opening.pass : Opening → List Char → Except Enclosed (List Char × List Char)
  | enclosed kind, body =>
    match Text.splitAfter kind.closer body with
    | some (inner, rest) => .ok (kind.opener ++ inner, rest)
    | none => .error kind
  | lineComment mark, body => .ok (mark ++ Text.lineRest body, Text.dropLine body)

/-- Splits a text into what is passed over and the rest. -/
def skip (prev : Option Char) (cs : List Char) : Except Enclosed (List Char × List Char) :=
  match opening? prev cs with
  | some (o, body) => o.pass body
  | none => .ok (cs.take 1, cs.drop 1)

theorem append_of_opening? {prev : Option Char} {cs body : List Char} {o : Opening}
    (h : opening? prev cs = some (o, body)) : cs = o.mark ++ body := by
  unfold opening? at h
  split at h
  case h_3 =>
    split at h
    · cases h; rfl
    · cases h
  all_goals cases h
  all_goals rfl

theorem mark_ne_nil_of_opening? {prev : Option Char} {cs body : List Char} {o : Opening}
    (h : opening? prev cs = some (o, body)) : o.mark ≠ [] := by
  unfold opening? at h
  split at h
  case h_3 =>
    split at h
    · cases h; exact List.cons_ne_nil _ _
    · cases h
  all_goals cases h
  all_goals exact List.cons_ne_nil _ _

theorem append_of_pass {o : Opening} {body passed rest : List Char}
    (h : o.pass body = .ok (passed, rest)) : o.mark ++ body = passed ++ rest := by
  cases o with
  | enclosed kind =>
    rw [Opening.pass] at h
    split at h
    · next inner after hs =>
      cases h
      rw [Text.append_of_splitAfter hs, ← List.append_assoc]
      rfl
    · cases h
  | lineComment mark =>
    cases h
    rw [List.append_assoc, Text.lineRest_append_dropLine]
    rfl

theorem mark_prefix_of_pass {o : Opening} {body passed rest : List Char}
    (h : o.pass body = .ok (passed, rest)) : o.mark <+: passed := by
  cases o with
  | enclosed kind =>
    rw [Opening.pass] at h
    split at h
    · cases h
      exact List.prefix_append _ _
    · cases h
  | lineComment mark =>
    cases h
    exact List.prefix_append _ _

theorem append_of_skip {prev : Option Char} {cs passed rest : List Char}
    (h : skip prev cs = .ok (passed, rest)) : cs = passed ++ rest := by
  unfold skip at h
  split at h
  · next o body ho => rw [append_of_opening? ho, append_of_pass h]
  · cases h
    exact (List.take_append_drop 1 cs).symm

theorem passed_ne_nil_of_skip {prev : Option Char} {cs passed rest : List Char}
    (h : skip prev cs = .ok (passed, rest)) (hcs : cs ≠ []) : passed ≠ [] := by
  unfold skip at h
  split at h
  · next o body ho =>
    obtain ⟨tail, rfl⟩ := mark_prefix_of_pass h
    exact List.append_ne_nil_of_left_ne_nil (mark_ne_nil_of_opening? ho) tail
  · cases h
    simpa using hcs

/-- The byte position behind what starts at byte position `p`: behind a literal or
comment, else behind one byte. At the end and beyond it is `p` itself. -/
def endPosition (sql : String) (p : Nat) : Except StatementError Nat :=
  match Text.locate p sql.toList with
  | .boundary _ [] => .ok p
  | .boundary before after =>
    match opening? before.getLast? after with
    | none => .ok (p + 1)
    | some (o, body) =>
      match o.pass body with
      | .ok (passed, _) => .ok (p + Text.byteLength passed)
      | .error kind => .error (Fault.error ⟨kind.unterminated, before⟩)
  | .inside => .ok (p + 1)
  | .beyond => .ok p

end Literal

end EscapeClause
