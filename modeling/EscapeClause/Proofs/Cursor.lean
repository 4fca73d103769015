import EscapeClause.Cursor
import EscapeClause.Proofs.Literal

/-! A cursor between two parts of a text. Every boundary is such a place, and there each
move of the cursor is a move of characters from the right part to the left. -/

namespace EscapeClause.Cursor

open Text

/-- The cursor between `before` and `after`, on the text that they make up. -/
def between (before after : List Char) : Cursor :=
  ⟨String.ofList (before ++ after), byteLength before⟩

variable (before after : List Char)

@[simp] theorem text_between : (between before after).text = String.ofList (before ++ after) := rfl

@[simp] theorem pos_between : (between before after).pos = byteLength before := rfl

/-- The same place once characters have moved to the left part. -/
theorem between_append (cs : List Char) :
    between (before ++ cs) after =
      ⟨String.ofList (before ++ (cs ++ after)), byteLength before + byteLength cs⟩ := by
  rw [between, List.append_assoc, byteLength_append]

theorem sides_between : (between before after).sides = .ok (before, after) :=
  sides_eq_ok_iff.2 ⟨String.toList_ofList, rfl⟩

theorem peek_between : (between before after).peek = .ok after.head? := by
  rw [peek, sides_between]
  rfl

theorem advance_between (c : Char) :
    (between before (c :: after)).advance = .ok (some c, between (before ++ [c]) after) := by
  rw [advance, sides_between, between_append]
  rfl

theorem skipGap_between :
    (between before after).skipGap = .ok (between (before ++ gap after) (dropGap after)) := by
  rw [skipGap, sides_between, between_append, gap_append_dropGap]
  rfl

theorem word_between : (between before after).word = .ok (String.ofList (Text.word after)) := by
  rw [word, sides_between]
  rfl

/-- Moves over characters by the count of their bytes, which is too small to wrap. -/
theorem advanceBytes_between {cs : List Char} (hcs : byteLength cs < UInt64.size / 2) :
    (between before (cs ++ after)).advanceBytes (byteLength cs) =
      between (before ++ cs) after := by
  have hle : byteLength before + byteLength cs ≤ byteLength (before ++ (cs ++ after)) := by
    simp only [byteLength_append]
    omega
  rw [between_append, advanceBytes, wordSum_of_lt hcs, text_between, pos_between,
    String.toList_ofList, Nat.min_eq_left hle]

/-- What is passed over at a character of one byte moves to the left part. -/
theorem passLiteral_between {c : Char} (hc : c.utf8Size = 1) {passed rest : List Char}
    (h : Literal.skip before.getLast? (c :: after) = .ok (passed, rest)) :
    (between before (c :: after)).passLiteral = .ok (between (before ++ passed) rest) := by
  rw [passLiteral, text_between, pos_between, Literal.endPosition_eq before after hc, h,
    between_append, ← Literal.append_of_skip h]
  rfl

theorem passLiteral_between_of_error {c : Char} (hc : c.utf8Size = 1) {kind : Enclosed}
    (h : Literal.skip before.getLast? (c :: after) = .error kind) :
    (between before (c :: after)).passLiteral =
      .error (Fault.error ⟨kind.unterminated, before⟩) := by
  rw [passLiteral, text_between, pos_between, Literal.endPosition_eq before after hc, h]
  rfl

end EscapeClause.Cursor
