import EscapeClause.Proofs.Rewriter

/-! What each step of the rewriter does at each place of a statement. -/

namespace EscapeClause

open Text

namespace Rewriter

/-- The rewriter between `done ++ kept` and `after`. What it makes of `done` is written. -/
def state (p : Point) (out : Option (List Char)) (done kept after : List Char) (level : Nat) :
    Rewriter :=
  ⟨p, .between (done ++ kept) after, out, byteLength done, level⟩

/-- A run begins in front of the statement, with nothing written. -/
theorem start_eq (sql : String) : start sql = state .scan none [] [] sql.toList 0 := by
  simp [start, state, Cursor.between]

section State

variable {p : Point} {out : Option (List Char)} {done kept after cs rest : List Char} {level : Nat}
  {c : Char}

theorem peek_state : (state p out done kept after level).peek = .ok after.head? := by
  rw [peek, state, Cursor.peek_between]
  rfl

theorem enter_state :
    (state p out done kept after level).enter =
      state p (some (out.getD [])) done kept after (level + 1) := rfl

theorem advance_state :
    (state p out done kept (c :: after) level).advance =
      .ok (state p out done (kept ++ [c]) after level) := by
  rw [advance, state, state, Cursor.advance_between, List.append_assoc]

theorem skipGap_state :
    (state p out done kept after level).skipGap =
      .ok (state p out done (kept ++ gap after) (dropGap after) level) := by
  rw [skipGap, state, state, Cursor.skipGap_between, List.append_assoc]

/-- A piece is moved over, and kept to be written later. -/
theorem pass_state {q : Piece} (h : Piece.read (done ++ kept).getLast? c cs = .ok (q, rest)) :
    (state p out done kept (c :: cs) level).pass c =
      .ok (state p out done (kept ++ q.text) rest level) := by
  unfold Piece.read at h
  rw [pass]
  split at h
  · next hm =>
    rw [if_pos hm]
    split at h
    · next text after hs =>
      cases h
      rw [passLiteral, state, state,
        Cursor.passLiteral_between _ _ (Piece.utf8Size_of_mayStartLiteral hm) hs, List.append_assoc]
      rfl
    · cases h
  · next hm =>
    cases h
    rw [if_neg hm, advance_state]
    rfl

/-- A literal or comment that is not closed ends the run where it opens. -/
theorem pass_state_of_error {kind : Enclosed}
    (h : Piece.read (done ++ kept).getLast? c cs = .error kind) :
    (state p out done kept (c :: cs) level).pass c =
      .error (.failed (Fault.error ⟨kind.unterminated, done ++ kept⟩)) := by
  unfold Piece.read at h
  split at h
  · next hm =>
    split at h
    · cases h
    · next kind' hs =>
      cases h
      rw [pass, if_pos hm, passLiteral, state,
        Cursor.passLiteral_between_of_error _ _ (Piece.utf8Size_of_mayStartLiteral hm) hs]
  · cases h

theorem toList_text_state :
    (state p out done kept after level).cursor.text.toList = done ++ kept ++ after :=
  String.toList_ofList

/-- What was kept is written in front of the blanks. -/
theorem blank_eq {r : Rewriter} (ht : r.cursor.text.toList = done ++ kept ++ after)
    (hc : r.copied = byteLength done) (count : Nat) :
    r.blank (byteLength (done ++ kept)) count =
      .ok { r with
        output := some (r.output.getD [] ++ kept ++ List.replicate count ' ')
        copied := byteLength (done ++ kept) + count } := by
  rw [blank, ht, hc, slice?_append]

/-- Blanks a character of one byte that has been moved over with what follows it. -/
theorem blank_state (hc : c.utf8Size = 1) (passed : List Char) :
    (state p out done (kept ++ c :: passed) after level).blank (byteLength (done ++ kept)) 1 =
      .ok (state p (some (out.getD [] ++ kept ++ [' '])) (done ++ kept ++ [c]) passed after
        level) := by
  have htext : (state p out done (kept ++ c :: passed) after level).cursor.text.toList =
      done ++ kept ++ (c :: passed ++ after) := by
    simp only [toList_text_state, List.append_assoc]
  rw [blank_eq htext rfl]
  simp [state, hc, Nat.add_assoc]

/-- Blanks the next character, of one byte, and moves over it. -/
theorem blankNext_state (hc : c.utf8Size = 1) :
    (state p out done kept (c :: after) level).blankNext =
      .ok (state p (some (out.getD [] ++ kept ++ [' '])) (done ++ kept ++ [c]) [] after level) := by
  have hb := blank_eq (@toList_text_state p out done kept (c :: after) level) rfl 1
  calc (state p out done kept (c :: after) level).blankNext
    _ = ((state p out done kept (c :: after) level).blank (byteLength (done ++ kept)) 1).bind
        advance := rfl
    _ = _ := by
      rw [hb, Except.bind, advance, state, Cursor.advance_between]
      simp [state, hc, Nat.add_assoc]

/-- An error is placed at the cursor. -/
theorem refuse_state (problem : Problem) :
    (state p out done kept after level).refuse problem =
      .failed (Fault.error ⟨problem, done ++ kept⟩) :=
  congrArg Halt.failed (Fault.error_eq_atByte ⟨problem, done ++ kept⟩ after).symm

theorem unterminated_state :
    (state p out done kept [] level).unterminated =
      .failed (Fault.error ⟨Item.unterminatedClause, done ++ kept⟩) := by
  rw [unterminated, toList_text_state, List.append_nil,
    Fault.error_eq_atByte ⟨Item.unterminatedClause, done ++ kept⟩ []]
  rfl

section Scan

/-- At the end of the statement a clause is open. -/
theorem scan_end_of_pos :
    (state .scan out done kept [] (level + 1)).step =
      .error (.failed (Fault.error ⟨Item.unterminatedClause, done ++ kept⟩)) := by
  show (state .scan out done kept [] (level + 1)).atScan = _
  simp only [atScan, peek_state, List.head?_nil, bind, Except.bind, unterminated_state]
  rfl

/-- No clause and no native literal was met, and the statement is given back as it is. -/
theorem scan_end_submitted :
    (state .scan none done kept [] 0).step =
      .error (.done (.submitted (String.ofList (done ++ kept)))) := by
  show (state .scan none done kept [] 0).atScan = _
  have hfinish : (state .scan none done kept [] 0).finish =
      .done (.submitted (String.ofList (done ++ kept))) := by
    rw [← List.append_nil (done ++ kept)]
    rfl
  simp only [atScan, peek_state, List.head?_nil, bind, Except.bind, hfinish]
  rfl

/-- What was written last ends with what was kept. -/
theorem scan_end_built {written : List Char} :
    (state .scan (some written) done kept [] 0).step =
      .error (.done (.built (String.ofList (written ++ kept)))) := by
  show (state .scan (some written) done kept [] 0).atScan = _
  have hfinish : (state .scan (some written) done kept [] 0).finish =
      .done (.built (String.ofList (written ++ kept))) := by
    rw [finish]
    dsimp only [state]
    rw [Cursor.text_between, String.toList_ofList, List.append_nil, slice?_end]
  simp only [atScan, peek_state, List.head?_nil, bind, Except.bind, hfinish]
  rfl

/-- An opening brace raises the level, and what it opens is decided behind the gap. The brace
is not written yet, as it stays in a native literal. -/
theorem scan_open :
    (state .scan out done kept ('{' :: after) level).step =
      .ok (state (.opened (byteLength (done ++ kept))) (some (out.getD [])) done
        (kept ++ '{' :: gap after) (dropGap after) (level + 1)) := by
  show (state .scan out done kept ('{' :: after) level).atScan = _
  simp only [atScan, peek_state, List.head?_cons, bind, Except.bind, ↓reduceIte, enter_state,
    advance_state, skipGap_state, List.append_assoc, List.singleton_append]
  rfl

/-- A closing brace is blanked and ends the innermost clause. -/
theorem scan_close :
    (state .scan out done kept ('}' :: after) (level + 1)).step =
      .ok (state .scan (some (out.getD [] ++ kept ++ [' '])) (done ++ kept ++ ['}']) [] after
        level) := by
  show (state .scan out done kept ('}' :: after) (level + 1)).atScan = _
  have hleave : (state .scan out done kept ('}' :: after) (level + 1)).leave =
      .ok (state .scan out done kept ('}' :: after) level) := rfl
  simp only [atScan, peek_state, List.head?_cons, bind, Except.bind, hleave]
  exact blankNext_state (by decide)

theorem scan_close_of_none :
    (state .scan out done kept ('}' :: after) 0).step =
      .error (.failed (Fault.error ⟨.unbalancedClosing, done ++ kept⟩)) := by
  show (state .scan out done kept ('}' :: after) 0).atScan = _
  simp only [atScan, peek_state, List.head?_cons, bind, Except.bind]
  exact congrArg Except.error (refuse_state _)

theorem scan_pass (ho : c ≠ '{') (hc : c ≠ '}') :
    (state .scan out done kept (c :: after) level).step =
      (state .scan out done kept (c :: after) level).pass c := by
  show (state .scan out done kept (c :: after) level).atScan = _
  simp only [atScan, peek_state, List.head?_cons, bind, Except.bind, if_neg ho, if_neg hc]

end Scan

section Opening

variable {passed : List Char}

theorem opened_end {brace : Nat} :
    (state (.opened brace) out done kept [] level).step =
      .error (.failed (Fault.error ⟨Item.unterminatedClause, done ++ kept⟩)) := by
  show (state (.opened brace) out done kept [] level).atOpened brace = _
  simp only [atOpened, peek_state, List.head?_nil, bind, Except.bind, unterminated_state]

/-- A digit makes a native literal of the brace, and nothing of it is blanked. -/
theorem opened_native {brace : Nat} (hd : c.isDigit = true) :
    (state (.opened brace) out done kept (c :: after) level).step =
      .ok (state .native out done kept (c :: after) level) := by
  show (state (.opened brace) out done kept (c :: after) level).atOpened brace = _
  simp only [atOpened, peek_state, List.head?_cons, bind, Except.bind, if_pos hd]
  rfl

/-- The brace of a clause is blanked once it is known to be one. -/
theorem opened_clause (hd : c.isDigit = false) (hq : c ≠ '?') :
    (state (.opened (byteLength (done ++ kept))) out done (kept ++ '{' :: passed) (c :: after)
      level).step =
      .ok (state .word (some (out.getD [] ++ kept ++ [' '])) (done ++ kept ++ ['{']) passed
        (c :: after) level) := by
  show (state (.opened (byteLength (done ++ kept))) out done (kept ++ '{' :: passed) (c :: after)
    level).atOpened (byteLength (done ++ kept)) = _
  have hbrace : '{'.utf8Size = 1 := by decide
  simp only [atOpened, peek_state, List.head?_cons, bind, Except.bind, hd, Bool.false_eq_true,
    if_false, blank_state hbrace, if_neg hq]
  rfl

/-- The brace and the question mark of a binding are blanked, and the gap between them stays. -/
theorem opened_question :
    (state (.opened (byteLength (done ++ kept))) out done (kept ++ '{' :: passed) ('?' :: after)
      level).step =
      .ok (state .binding (some (out.getD [] ++ kept ++ [' '] ++ passed ++ [' ']))
        (done ++ kept ++ ['{'] ++ passed ++ ['?']) (Text.gap after) (dropGap after) level) := by
  show (state (.opened (byteLength (done ++ kept))) out done (kept ++ '{' :: passed) ('?' :: after)
    level).atOpened (byteLength (done ++ kept)) = _
  have hbrace : '{'.utf8Size = 1 := by decide
  have hquestion : '?'.utf8Size = 1 := by decide
  simp only [atOpened, peek_state, List.head?_cons, bind, Except.bind, blank_state hbrace,
    blankNext_state hquestion, skipGap_state]
  rfl

theorem binding_equals :
    (state .binding out done kept ('=' :: after) level).step =
      .ok (state .word (some (out.getD [] ++ kept ++ [' '])) (done ++ kept ++ ['='])
        (Text.gap after) (dropGap after) level) := by
  show (state .binding out done kept ('=' :: after) level).atBinding = _
  have hequals : '='.utf8Size = 1 := by decide
  simp only [atBinding, peek_state, List.head?_cons, bind, Except.bind, if_true,
    blankNext_state hequals, skipGap_state]
  rfl

/-- A binding without its equals sign is refused where the sign should stand. -/
theorem binding_missing (hc : after.head? ≠ some '=') :
    (state .binding out done kept after level).step =
      .error (.failed (Fault.error ⟨.expected "=", done ++ kept⟩)) := by
  show (state .binding out done kept after level).atBinding = _
  simp only [atBinding, peek_state, bind, Except.bind, if_neg hc, refuse_state]

/-- The rewriter blanks as many bytes as the marker has letters. -/
theorem markerCount_eq :
    (Keyword.ofWord? (Text.word after)).elim 0 Keyword.blankLength =
      (Item.marker after).length := by
  rw [Keyword.blankLength_ofWord?, Item.marker]
  split <;> rfl

theorem word_of_marker_eq_nil (h : Item.marker after = []) :
    (state .word out done kept after level).step =
      .ok (state .scan out done kept after level) := by
  show (state .word out done kept after level).atWord = _
  rw [atWord, state, Cursor.word_between]
  simp only [String.toList_ofList, markerCount_eq, h, List.length_nil, Nat.lt_irrefl, if_false]
  rfl

/-- A marker is blanked as a whole, and reading goes on behind it. -/
theorem word_of_marker_ne_nil (h : Item.marker after ≠ []) :
    (state .word out done kept after level).step =
      .ok (state .scan
        (some (out.getD [] ++ kept ++ List.replicate (Item.marker after).length ' '))
        (done ++ kept ++ Item.marker after) [] (after.drop (Item.markerLength after)) level) := by
  show (state .word out done kept after level).atWord = _
  have hword : (state .word out done kept after level).cursor.word =
      .ok (String.ofList (Text.word after)) := Cursor.word_between _ _
  have hblank := blank_eq (@toList_text_state .word out done kept after level) rfl
    (Item.marker after).length
  have hcopied : byteLength (done ++ kept) + (Item.marker after).length =
      byteLength (done ++ kept ++ Item.marker after) := by
    rw [byteLength_append _ (Item.marker after), Item.byteLength_marker]
  have hshort : byteLength (Item.marker after) < UInt64.size / 2 := by
    have hle := Item.length_marker_le after
    rw [Item.byteLength_marker]
    exact Nat.lt_of_le_of_lt hle (by decide)
  have hmove := Cursor.advanceBytes_between (done ++ kept) (after.drop (Item.markerLength after))
    hshort
  rw [Item.byteLength_marker, Item.marker_append_drop] at hmove
  rw [atWord, hword]
  simp only [String.toList_ofList, markerCount_eq, if_pos (List.length_pos_iff.2 h)]
  rw [show (state .word out done kept after level).cursor.pos = byteLength (done ++ kept) from rfl,
    hblank]
  simp only [bind, Except.bind, state, hmove, hcopied, List.append_nil]
  rfl

end Opening

section Native

theorem native_end :
    (state .native out done kept [] level).step =
      .error (.failed (Fault.error ⟨Item.unterminatedClause, done ++ kept⟩)) := by
  show (state .native out done kept [] level).atNative = _
  simp only [atNative, peek_state, List.head?_nil, bind, Except.bind, unterminated_state]

/-- The closing brace of a native literal stays. -/
theorem native_close :
    (state .native out done kept ('}' :: after) (level + 1)).step =
      .ok (state .scan out done (kept ++ ['}']) after level) := by
  show (state .native out done kept ('}' :: after) (level + 1)).atNative = _
  simp only [atNative, peek_state, List.head?_cons, bind, Except.bind, if_true, advance_state]
  rfl

theorem native_pass (hc : c ≠ '}') :
    (state .native out done kept (c :: after) level).step =
      (state .native out done kept (c :: after) level).pass c := by
  show (state .native out done kept (c :: after) level).atNative = _
  simp only [atNative, peek_state, List.head?_cons, bind, Except.bind, if_neg hc]

end Native

end State

end Rewriter

end EscapeClause
