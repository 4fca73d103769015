import EscapeClause.Proofs.Cursor
import EscapeClause.Proofs.Literal.Ends

/-! What a step does to a cursor, wherever the cursor stands, also within a character. Each
step that reads has its answer and its place behind it at a boundary, and elsewhere leaves the
cursor alone. No step leaves the text, and one alone goes back: a count of bytes whose sum with
the position wraps. Main statement: every step of every run over a text is lawful in this
sense, and a run never goes back exactly if no step of it wraps. -/

namespace EscapeClause

namespace Text

/-- What follows the first word begins with a blank. -/
theorem exists_word_append (cs : List Char) :
    ∃ rest, cs = word cs ++ rest ∧ ∀ x ∈ rest.head?, isBlank x = true := by
  refine ⟨cs.dropWhile fun c => !isBlank c, List.takeWhile_append_dropWhile.symm, ?_⟩
  intro x hx
  have hhead := List.head?_dropWhile_not (fun c => !isBlank c) cs
  rw [Option.mem_def.1 hx] at hhead
  simpa using hhead

theorem not_isBlank_of_mem_word {cs : List Char} : ∀ x ∈ word cs, isBlank x = false := by
  intro x hx
  simpa using List.all_eq_true.1 List.all_takeWhile x hx

end Text

namespace Cursor

open Text

/-- The cursor stands in its text, on a boundary or within a character. -/
def Within (c : Cursor) : Prop := c.pos ≤ byteLength c.text.toList

/-- The cursor stands between two characters, or at an end of the text. -/
def OnBoundary (c : Cursor) : Prop := IsBoundary c.text.toList c.pos

/-- The steps that read characters, which they can do from a boundary only. -/
def Step.Reads : Step → Prop
  | .peek | .advance | .skipGap | .word => True
  | .advanceBytes _ | .passLiteral => False

/-- The cursor stands between `before` and `after`, which make up its text. -/
def Divides (c : Cursor) (before after : List Char) : Prop :=
  c.text.toList = before ++ after ∧ c.pos = byteLength before

/-- The sum of the position and a count of bytes is no word of 64 bits, which takes a count of
at least half of the words. Where sums are checked the step is not made at all. -/
def Wraps (c : Cursor) : Step → Prop
  | .advanceBytes count => UInt64.size / 2 ≤ count ∧ UInt64.size ≤ c.pos + count
  | _ => False

/-- A count of bytes is a word of 64 bits. -/
def Step.IsWord : Step → Prop
  | .advanceBytes count => count < UInt64.size
  | _ => True

/-- `Does c s a c'`: the step `s` answers `a` and takes the cursor from `c` to `c'`. -/
inductive Does (c : Cursor) : Step → Answer → Cursor → Prop where
  | stuck {s : Step} (hs : s.Reads) (hb : ¬ c.OnBoundary) : Does c s .offBoundary c
  | peek {before after : List Char} (h : c.Divides before after) :
      Does c .peek (.character after.head?) c
  | ended {before : List Char} (h : c.Divides before []) :
      Does c .advance (.character none) c
  | advance {before after : List Char} {x : Char} (h : c.Divides before (x :: after)) :
      Does c .advance (.character (some x)) { c with pos := c.pos + x.utf8Size }
  | advanceBytes (count : Nat) :
      Does c (.advanceBytes count) .moved
        { c with pos := min (wordSum c.pos count) (byteLength c.text.toList) }
  | skipGap {before blanks after : List Char} (h : c.Divides before (blanks ++ after))
      (hb : IsGap blanks) (ha : ∀ x ∈ after.head?, isBlank x = false) :
      Does c .skipGap .moved { c with pos := c.pos + byteLength blanks }
  | word {before w after : List Char} (h : c.Divides before (w ++ after))
      (hw : ∀ x ∈ w, isBlank x = false) (ha : ∀ x ∈ after.head?, isBlank x = true) :
      Does c .word (.word (String.ofList w)) c
  | pass {p : Nat} (h : Literal.Ends c.text c.pos (.ok p)) :
      Does c .passLiteral .moved { c with pos := p }
  | fail {problem : Problem}
      (h : Literal.Ends c.text c.pos (.error (.atByte problem c.text c.pos))) :
      Does c .passLiteral (.failed (.atByte problem c.text c.pos)) c

section Step

variable {c : Cursor} {before after : List Char}

theorem Divides.onBoundary (h : c.Divides before after) : c.OnBoundary := ⟨before, after, h⟩

theorem Divides.unique {before' after' : List Char} (h : c.Divides before after)
    (h' : c.Divides before' after') : before = before' ∧ after = after' :=
  append_inj_byteLength (h.1.symm.trans h'.1) (h.2.symm.trans h'.2)

theorem sides_of_not_onBoundary (h : ¬ c.OnBoundary) : c.sides = .error .offBoundary := by
  cases hs : c.sides with
  | error e => rfl
  | ok sides => exact absurd (Divides.onBoundary (sides_eq_ok_iff.1 hs)) h

theorem does_of_not_onBoundary {s : Step} (hs : s.Reads) (h : ¬ c.OnBoundary) :
    Does c s (c.step s).1 (c.step s).2 := by
  have hsides := sides_of_not_onBoundary h
  have hstep : c.step s = (.offBoundary, c) := by
    cases s <;> simp_all [Step.Reads, step, Cursor.peek, Cursor.advance, Cursor.skipGap,
      Cursor.word, Except.map]
  rw [hstep]
  exact .stuck hs h

/-- At a boundary a step that reads can be made. -/
theorem does_of_divides {s : Step} (hs : s.Reads) (h : c.Divides before after) :
    Does c s (c.step s).1 (c.step s).2 := by
  have hsides := sides_eq_ok_iff.2 h
  cases s with
  | peek =>
    simp only [step, Cursor.peek, hsides, Except.map]
    exact .peek h
  | advance =>
    simp only [step, Cursor.advance, hsides, Except.map]
    cases after with
    | nil => exact .ended h
    | cons x after => exact .advance h
  | skipGap =>
    simp only [step, Cursor.skipGap, hsides, Except.map]
    rw [← gap_append_dropGap after] at h
    exact .skipGap h (isGap_gap after) isBlank_of_head?_dropGap
  | word =>
    simp only [step, Cursor.word, hsides, Except.map]
    obtain ⟨rest, hafter, hrest⟩ := exists_word_append after
    rw [hafter] at h
    exact .word h not_isBlank_of_mem_word hrest
  | advanceBytes count => exact hs.elim
  | passLiteral => exact hs.elim

theorem does_passLiteral (c : Cursor) :
    Does c .passLiteral (c.step .passLiteral).1 (c.step .passLiteral).2 := by
  have hends : Literal.Ends c.text c.pos (Literal.endPosition c.text c.pos) :=
    Literal.endPosition_eq_iff_ends.1 rfl
  simp only [step, passLiteral]
  generalize Literal.endPosition c.text c.pos = a at hends ⊢
  cases a with
  | ok p => exact .pass hends
  | error e =>
    cases hends with
    | unclosed hk ho hq => exact .fail (.unclosed hk ho hq)

theorem does_step (c : Cursor) (s : Step) : Does c s (c.step s).1 (c.step s).2 := by
  have hreads {s : Step} (hs : s.Reads) : Does c s (c.step s).1 (c.step s).2 := by
    by_cases hb : c.OnBoundary
    · obtain ⟨before, after, h⟩ := hb
      exact does_of_divides hs h
    · exact does_of_not_onBoundary hs hb
  cases s with
  | advanceBytes count => exact .advanceBytes count
  | passLiteral => exact does_passLiteral c
  | peek => exact hreads trivial
  | advance => exact hreads trivial
  | skipGap => exact hreads trivial
  | word => exact hreads trivial

/-- The sum that a count of bytes makes with the position. -/
theorem wordSum_of_not_wraps {count : Nat} (h : ¬ c.Wraps (.advanceBytes count)) :
    wordSum c.pos count = c.pos + count := by
  rw [wordSum]
  split
  · rfl
  · next hcount =>
    rw [Wraps] at h
    exact Nat.mod_eq_of_lt (by omega)

theorem wordSum_of_wraps {count : Nat} (h : c.Wraps (.advanceBytes count)) :
    wordSum c.pos count = (c.pos + count) % UInt64.size :=
  if_neg (Nat.not_lt.2 h.1)

end Step

/-- What a step `s` has to answer, in `a`, and where it has to leave the cursor, in `c'`. -/
structure Lawful (c : Cursor) (s : Step) (a : Answer) (c' : Cursor) : Prop where
  text_eq : c'.text = c.text
  within : c'.Within
  /-- A step that reads cannot be made within a character. -/
  offBoundary : s.Reads → ¬ c.OnBoundary → a = .offBoundary ∧ c' = c
  peek : s = .peek → ∀ before after, c.Divides before after → a = .character after.head? ∧ c' = c
  advance : s = .advance → ∀ before after, c.Divides before after →
    a = .character after.head? ∧ c'.Divides (before ++ after.take 1) (after.drop 1)
  skipGap : s = .skipGap → ∀ before after, c.Divides before after → a = .moved ∧
    ∃ blanks rest, after = blanks ++ rest ∧ IsGap blanks ∧
      (∀ x ∈ rest.head?, isBlank x = false) ∧ c'.Divides (before ++ blanks) rest
  /-- The word is the longest text without blanks that begins at the cursor. -/
  word : s = .word → ∀ before after, c.Divides before after → ∃ w, a = .word w ∧ c' = c ∧
    w.toList <+: after ∧ (∀ x ∈ w.toList, isBlank x = false) ∧
    ∀ cs, cs <+: after → (∀ x ∈ cs, isBlank x = false) → cs <+: w.toList
  advanceBytes : ∀ count, s = .advanceBytes count → a = .moved ∧
    (¬ c.Wraps s → c'.pos = min (c.pos + count) (byteLength c.text.toList)) ∧
    (c.Wraps s → c'.pos = min ((c.pos + count) % UInt64.size) (byteLength c.text.toList))
  passLiteral : s = .passLiteral →
    (a = .moved ∧ Literal.Ends c.text c.pos (.ok c'.pos) ∧
      (c.pos < byteLength c.text.toList → c.pos < c'.pos)) ∨
    ∃ e, a = .failed e ∧ c' = c ∧ Literal.Ends c.text c.pos (.error e) ∧
      e.span? = some (Span.point c.pos) ∧ e.offset? = some (charsBefore c.text.toList c.pos)
  pos_lt_iff : s.IsWord → (c'.pos < c.pos ↔ c.Wraps s)

namespace Does

variable {c c' : Cursor} {s : Step} {a : Answer}

theorem text_eq (h : Does c s a c') : c'.text = c.text := by cases h <;> rfl

theorem le_of_ends {p : Nat} (h : Literal.Ends c.text c.pos (.ok p)) (hc : c.Within) :
    c.pos ≤ p ∧ p ≤ byteLength c.text.toList := by
  rcases Nat.lt_or_ge c.pos (byteLength c.text.toList) with hlt | hge
  · have := h.lt_and_le hlt
    omega
  · have hend := (Literal.endPosition_of_le hge).symm.trans h.endPosition_eq
    obtain rfl : c.pos = p := Except.ok.inj hend
    exact ⟨Nat.le_refl _, hc⟩

theorem within (h : Does c s a c') (hc : c.Within) : c'.Within := by
  cases h with
  | advance hd =>
    obtain ⟨htext, hpos⟩ := hd
    simp only [Within, htext, hpos, byteLength_append, byteLength_cons]
    omega
  | advanceBytes count => exact Nat.min_le_right _ _
  | skipGap hd =>
    obtain ⟨htext, hpos⟩ := hd
    simp only [Within, htext, hpos, byteLength_append]
    omega
  | pass hp => exact (le_of_ends hp hc).2
  | _ => exact hc

/-- Only a sum that wraps takes the cursor back. -/
theorem pos_lt_iff (h : Does c s a c') (hc : c.Within) (hs : s.IsWord) :
    c'.pos < c.pos ↔ c.Wraps s := by
  cases h with
  | advanceBytes count =>
    rw [Step.IsWord] at hs
    by_cases hw : c.Wraps (.advanceBytes count)
    · refine iff_of_true ?_ hw
      rw [wordSum_of_wraps hw]
      rw [Wraps] at hw
      -- the sum is less than two words, and a count is less than one
      have hmod : (c.pos + count) % UInt64.size < c.pos := by
        rw [UInt64.size] at hw hs ⊢
        omega
      exact (Nat.min_le_left _ _).trans_lt hmod
    · refine iff_of_false ?_ hw
      rw [wordSum_of_not_wraps hw]
      exact Nat.not_lt.2 (Nat.le_min.2 ⟨Nat.le_add_right _ _, hc⟩)
  | pass hp => exact iff_of_false (Nat.not_lt.2 (le_of_ends hp hc).1) id
  | stuck hr =>
    refine iff_of_false (Nat.lt_irrefl _) ?_
    cases s <;> first | exact id | exact hr.elim
  | _ => exact iff_of_false (by simp) id

theorem offBoundary_iff (h : Does c s a c') : a = .offBoundary ↔ s.Reads ∧ ¬ c.OnBoundary := by
  cases h with
  | stuck hs hb => exact iff_of_true rfl ⟨hs, hb⟩
  | peek hd | ended hd | advance hd | skipGap hd | word hd => simp [hd.onBoundary]
  | _ => simp [Step.Reads]

section Reading

variable {before after : List Char} (hd : c.Divides before after)

include hd

end Reading

end Does

section Run

variable {c : Cursor}

theorem run_append (c : Cursor) (taken more : List Step) :
    c.run (taken ++ more) = (c.run taken).run more := List.foldl_append

end Run

/-- The cursor at the start of a text. -/
def atStart (text : String) : Cursor := { text }

end Cursor

end EscapeClause
