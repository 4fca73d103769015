import EscapeClause.Keyword
import EscapeClause.Literal

/-! The items of a statement: the marks that open and close escape clauses, native
literals such as `{2024-01-31}`, and the pieces of text between them. An item has a
source, the characters it was read from, and an output of the same length, in which
the marks are blanks. Main statement: reading an item splits the text into the source
of the item and the rest. -/

namespace EscapeClause

/-- A piece of text outside the marks of clauses. The characters that can start a
literal or comment are passed over with what they start, also alone. -/
inductive Piece where
  | passed (text : List Char)
  | plain (c : Char)
  deriving DecidableEq, Repr

namespace Piece

def text : Piece → List Char
  | passed text => text
  | plain c => [c]

def mayStartLiteral (c : Char) : Bool :=
  c == '\'' || c == '"' || c == '$' || c == '/' || c == '-'

def read (prev : Option Char) (c : Char) (cs : List Char) :
    Except Enclosed (Piece × List Char) :=
  if mayStartLiteral c then
    match Literal.skip prev (c :: cs) with
    | .ok (text, rest) => .ok (passed text, rest)
    | .error kind => .error kind
  else .ok (plain c, cs)

theorem append_of_read {prev : Option Char} {c : Char} {cs rest : List Char} {p : Piece}
    (h : read prev c cs = .ok (p, rest)) : c :: cs = p.text ++ rest := by
  unfold read at h
  split at h
  · split at h
    · next text after hs =>
      cases h
      exact Literal.append_of_skip hs
    · cases h
  · cases h
    rfl

theorem text_ne_nil_of_read {prev : Option Char} {c : Char} {cs rest : List Char} {p : Piece}
    (h : read prev c cs = .ok (p, rest)) : p.text ≠ [] := by
  unfold read at h
  split at h
  · split at h
    · next text after hs =>
      cases h
      exact Literal.passed_ne_nil_of_skip hs (List.cons_ne_nil c cs)
    · cases h
  · cases h
    exact List.cons_ne_nil _ _

theorem length_rest_lt_of_read {prev : Option Char} {c : Char} {cs rest : List Char} {p : Piece}
    (h : read prev c cs = .ok (p, rest)) : rest.length < (c :: cs).length := by
  have hp := List.length_pos_iff.2 (text_ne_nil_of_read h)
  rw [append_of_read h, List.length_append]
  omega

end Piece

/-- The binding of a return value, `? =`, with the gaps behind its two marks. -/
structure Binding where
  gap : List Char
  gapAfter : List Char
  deriving DecidableEq, Repr

namespace Binding

def source (b : Binding) : List Char := '?' :: b.gap ++ '=' :: b.gapAfter

def output (b : Binding) : List Char := ' ' :: b.gap ++ ' ' :: b.gapAfter

end Binding

/-- A `native` literal holds what stands between its gap and its closing brace. The
`marker` of an opening is the keyword that is blanked, as it is spelled, or nothing. -/
inductive Item where
  | piece (p : Piece)
  | native (gap : List Char) (body : List Piece)
  | opening (gap : List Char) (binding : Option Binding) (marker : List Char)
  | closing
  deriving DecidableEq, Repr

namespace Item

def source : Item → List Char
  | piece p => p.text
  | native gap body => '{' :: gap ++ body.flatMap Piece.text ++ ['}']
  | opening gap binding marker => '{' :: gap ++ (binding.elim [] Binding.source) ++ marker
  | closing => ['}']

def output : Item → List Char
  | opening gap binding marker =>
    ' ' :: gap ++ (binding.elim [] Binding.output) ++ List.replicate marker.length ' '
  | closing => [' ']
  | item => item.source

/-- Whether the item begins with an opening brace. -/
def opensBrace : Item → Bool
  | native .. | opening .. => true
  | _ => false

/-- The end of the text came before the end of a clause or native literal. -/
def unterminatedClause : Problem := .unterminated "escape clause"

/-- Reads the body of a native literal, up to and with its closing brace. -/
def readBody (prev : Option Char) (cs : List Char) : Except Fault (List Piece × List Char) :=
  match cs with
  | [] => .error ⟨unterminatedClause, []⟩
  | c :: cs =>
    if c = '}' then .ok ([], cs)
    else match h : Piece.read prev c cs with
      | .error kind => .error ⟨kind.unterminated, []⟩
      | .ok (p, rest) =>
        have := Piece.length_rest_lt_of_read h
        match readBody p.text.getLast? rest with
        | .error f => .error (f.behind p.text)
        | .ok (body, rest) => .ok (p :: body, rest)
termination_by cs.length
decreasing_by exact this

/-- How many characters of the keyword at the front are blanked. The word there is read
only as far as it can be a keyword. -/
def markerLength (cs : List Char) : Nat :=
  (Keyword.ofWord? (Text.word (cs.take 7))).elim 0 Keyword.blankLength

theorem markerLength_eq (cs : List Char) :
    markerLength cs = (Keyword.ofWord? (Text.word cs)).elim 0 Keyword.blankLength := by
  rw [markerLength, Text.word, ← List.take_takeWhile, Keyword.ofWord?_take]
  rfl

/-- Reads what follows the opening brace and gap of a clause, and its binding if it
has one. -/
def readMarker (gap : List Char) (binding : Option Binding) (cs : List Char) :
    Item × List Char :=
  (opening gap binding (cs.take (markerLength cs)), cs.drop (markerLength cs))

/-- Reads what an opening brace begins. A digit behind the gap makes it a native
literal, and a question mark calls for a binding. -/
def readOpening (cs : List Char) : Except Fault (Item × List Char) :=
  let before := '{' :: Text.gap cs
  match Text.dropGap cs with
  | [] => .error ⟨unterminatedClause, before⟩
  | c :: rest =>
    if c.isDigit then
      match readBody before.getLast? (c :: rest) with
      | .error f => .error (f.behind before)
      | .ok (body, rest) => .ok (native (Text.gap cs) body, rest)
    else if c = '?' then
      match Text.dropGap rest with
      | '=' :: after =>
        .ok (readMarker (Text.gap cs) (some ⟨Text.gap rest, Text.gap after⟩) (Text.dropGap after))
      | _ => .error ⟨.expected "=", before ++ '?' :: Text.gap rest⟩
    else .ok (readMarker (Text.gap cs) none (c :: rest))

/-- Reads the item that begins with `c`. -/
def read (prev : Option Char) (c : Char) (cs : List Char) : Except Fault (Item × List Char) :=
  if c = '{' then readOpening cs
  else if c = '}' then .ok (closing, cs)
  else match Piece.read prev c cs with
    | .error kind => .error ⟨kind.unterminated, []⟩
    | .ok (p, rest) => .ok (piece p, rest)

theorem append_of_readBody {prev : Option Char} {cs rest : List Char} {body : List Piece}
    (h : readBody prev cs = .ok (body, rest)) :
    cs = body.flatMap Piece.text ++ '}' :: rest := by
  fun_induction readBody prev cs generalizing body with
  | case1 => cases h
  | case2 => cases h; rfl
  | case3 => cases h
  | case4 => cases h
  | case5 prev c cs hc p after hp _ body after' hb ih =>
    cases h
    rw [List.flatMap_cons, List.append_assoc, ← ih hb]
    exact Piece.append_of_read hp

theorem append_of_readMarker {gap cs rest : List Char} {binding : Option Binding} {i : Item}
    (h : readMarker gap binding cs = (i, rest)) :
    '{' :: gap ++ (binding.elim [] Binding.source) ++ cs = i.source ++ rest := by
  obtain ⟨rfl, rfl⟩ := Prod.mk.inj h
  rw [source, List.append_assoc _ (cs.take _), List.take_append_drop]

theorem append_of_readOpening {cs rest : List Char} {i : Item}
    (h : readOpening cs = .ok (i, rest)) : '{' :: cs = i.source ++ rest := by
  have hcs := Text.gap_append_dropGap cs
  unfold readOpening at h
  dsimp only at h
  split at h
  · cases h
  · next c after hd =>
    rw [hd] at hcs
    split at h
    · split at h
      · cases h
      · next body after' hb =>
        cases h
        calc '{' :: cs = '{' :: (Text.gap cs ++ c :: after) := by rw [hcs]
          _ = _ := by rw [append_of_readBody hb]; simp [source]
    · split at h
      · next hq =>
        split at h
        · next after' he =>
          have h₁ := Text.gap_append_dropGap after
          have h₂ := Text.gap_append_dropGap after'
          rw [he] at h₁
          rw [← append_of_readMarker (Except.ok.inj h)]
          calc '{' :: cs = '{' :: (Text.gap cs ++ c :: after) := by rw [hcs]
            _ = '{' :: (Text.gap cs ++ '?' :: (Text.gap after ++ '=' :: after')) := by rw [h₁, hq]
            _ = _ := by simp [Binding.source, h₂]
        · cases h
      · rw [← append_of_readMarker (Except.ok.inj h)]
        calc '{' :: cs = '{' :: (Text.gap cs ++ c :: after) := by rw [hcs]
          _ = _ := by simp

theorem append_of_read {prev : Option Char} {c : Char} {cs rest : List Char} {i : Item}
    (h : read prev c cs = .ok (i, rest)) : c :: cs = i.source ++ rest := by
  unfold read at h
  split at h
  · next hc => rw [hc]; exact append_of_readOpening h
  · split at h
    · next hc => cases h; rw [hc]; rfl
    · split at h
      · cases h
      · next p after hp => cases h; exact Piece.append_of_read hp

theorem source_ne_nil_of_read {prev : Option Char} {c : Char} {cs rest : List Char} {i : Item}
    (h : read prev c cs = .ok (i, rest)) : i.source ≠ [] := by
  cases i with
  | piece p =>
    unfold read at h
    split at h
    · unfold readOpening at h
      dsimp only at h
      repeat' split at h
      all_goals cases h
    · split at h
      · cases h
      · split at h
        · cases h
        · next hp => cases h; exact Piece.text_ne_nil_of_read hp
  | native gap body => simp [source]
  | opening gap binding marker => simp [source]
  | closing => simp [source]

theorem length_rest_lt_of_read {prev : Option Char} {c : Char} {cs rest : List Char} {i : Item}
    (h : read prev c cs = .ok (i, rest)) : rest.length < (c :: cs).length := by
  have hi := List.length_pos_iff.2 (source_ne_nil_of_read h)
  rw [append_of_read h, List.length_append]
  omega

@[simp] theorem length_output (i : Item) : i.output.length = i.source.length := by
  cases i with
  | opening gap binding marker =>
    cases binding <;> simp [output, source, Binding.output, Binding.source]
  | _ => rfl

end Item

end EscapeClause
