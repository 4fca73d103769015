import EscapeClause.Json.Quoted
import Mathlib.Data.Nat.Digits.Defs
import Mathlib.Data.List.Forall2
import Mathlib.Tactic.IntervalCases

/-! How a string is spelled between its quotes. A character stands for itself, or a backslash
begins an escape: a short one, the four hexadecimal digits of the character, or two surrogates
that stand for it together. Main statement: a spelled text is read back from every spelling of
it, and its end is found if it is passed over. -/

namespace EscapeClause.Json

/-- The short escapes: what stands behind the backslash, and what it means. -/
def shortEscapes : List (Char × Char) :=
  [('"', '"'), ('\\', '\\'), ('/', '/'), ('b', '\x08'), ('f', '\x0c'), ('n', '\n'), ('r', '\r'),
    ('t', '\t')]

/-- A hexadecimal digit and its value. Letters are taken in both cases. -/
def IsHexDigit (v : Nat) (c : Char) : Prop :=
  v < 16 ∧ (c = Nat.digitChar v ∨ c = (Nat.digitChar v).toUpper)

/-- The four hexadecimal digits of a number, the highest first. -/
def SpellsUnit (n : Nat) (ds : List Char) : Prop :=
  ∃ vs : List Nat, vs.length = 4 ∧ List.Forall₂ IsHexDigit vs ds ∧ Nat.ofDigits 16 vs.reverse = n

/-- `Spells text body`: between two quotes `body` is a spelling of `text`. Half of a surrogate
pair spells nothing. -/
inductive Spells : List Char → List Char → Prop where
  | nil : Spells [] []
  | plain {c : Char} {text body : List Char} (hq : c ≠ '"') (hb : c ≠ '\\') (hc : 0x20 ≤ c.toNat)
      (h : Spells text body) : Spells (c :: text) (c :: body)
  | short {e c : Char} {text body : List Char} (he : (e, c) ∈ shortEscapes)
      (h : Spells text body) : Spells (c :: text) ('\\' :: e :: body)
  | unit {c : Char} {ds text body : List Char} (hu : SpellsUnit c.toNat ds)
      (h : Spells text body) : Spells (c :: text) ('\\' :: 'u' :: (ds ++ body))
  | pair {c : Char} {high low : Nat} {ds ds' text body : List Char}
      (hhigh : 0xD800 ≤ high ∧ high < 0xDC00) (hlow : 0xDC00 ≤ low ∧ low < 0xE000)
      (hc : c.toNat = 0x10000 + (high - 0xD800) * 0x400 + (low - 0xDC00))
      (hu : SpellsUnit high ds) (hu' : SpellsUnit low ds') (h : Spells text body) :
      Spells (c :: text) ('\\' :: 'u' :: (ds ++ '\\' :: 'u' :: (ds' ++ body)))

theorem spells_self {text : List Char}
    (h : ∀ c ∈ text, c ≠ '"' ∧ c ≠ '\\' ∧ 0x20 ≤ c.toNat) : Spells text text := by
  induction text with
  | nil => exact .nil
  | cons c text ih =>
    obtain ⟨hq, hb, hc⟩ := h c List.mem_cons_self
    exact .plain hq hb hc (ih fun c hc => h c (List.mem_cons_of_mem _ hc))

section Escapes

variable {c e : Char} {n : Nat} {ds rest : List Char}

theorem hexDigit?_of_isHexDigit {v : Nat} (h : IsHexDigit v c) : hexDigit? c = some v := by
  obtain ⟨hv, hc⟩ := h
  interval_cases v <;> rcases hc with rfl | rfl <;> decide

theorem readUnit_of_spellsUnit (h : SpellsUnit n ds) (rest : List Char) :
    readUnit (ds ++ rest) = .ok (n, rest) := by
  obtain ⟨vs, hlength, hds, rfl⟩ := h
  obtain ⟨a, b, c, d, rfl⟩ := List.length_eq_four.1 hlength
  obtain _ | ⟨ha, _ | ⟨hb, _ | ⟨hc, _ | ⟨hd, _ | _⟩⟩⟩⟩ := hds
  simp only [List.cons_append, List.nil_append, readUnit, hexDigit?_of_isHexDigit ha,
    hexDigit?_of_isHexDigit hb, hexDigit?_of_isHexDigit hc, hexDigit?_of_isHexDigit hd]
  simp only [List.reverse_cons, List.reverse_nil, List.nil_append, List.cons_append,
    Nat.ofDigits_cons, Nat.ofDigits_nil]
  congr 2
  omega

theorem escaped?_of_mem (h : (e, c) ∈ shortEscapes) : escaped? e = some c ∧ e ≠ 'u' := by
  have hall : ∀ p ∈ shortEscapes, escaped? p.1 = some p.2 ∧ p.1 ≠ 'u' := by decide
  exact hall _ h

theorem readEscape_short (h : (e, c) ∈ shortEscapes) (rest : List Char) :
    readEscape (e :: rest) = .ok (c, rest) := by
  obtain ⟨he, hu⟩ := escaped?_of_mem h
  rw [readEscape]
  · simp only [he]
  · rintro rfl
    exact hu rfl

theorem skipEscape_short (h : (e, c) ∈ shortEscapes) (rest : List Char) :
    skipEscape (e :: rest) = .ok rest := by
  obtain ⟨he, hu⟩ := escaped?_of_mem h
  rw [skipEscape]
  · simp only [he, Option.isSome_some, if_true]
  · rintro rfl
    exact hu rfl

theorem skipEscape_unit (h : SpellsUnit n ds) (rest : List Char) :
    skipEscape ('u' :: (ds ++ rest)) = .ok rest := by
  simp only [skipEscape, readUnit_of_spellsUnit h]
  rfl

/-- No character is a surrogate. -/
theorem not_surrogate (c : Char) :
    isHighSurrogate c.toNat = false ∧ isLowSurrogate c.toNat = false := by
  have hvalid : c.toNat < 0xD800 ∨ 0xDFFF < c.toNat ∧ c.toNat < 0x110000 := c.valid
  simp only [isHighSurrogate, isLowSurrogate, Bool.and_eq_false_iff, decide_eq_false_iff_not]
  omega

theorem readEscape_unit (h : SpellsUnit c.toNat ds) (rest : List Char) :
    readEscape ('u' :: (ds ++ rest)) = .ok (c, rest) := by
  obtain ⟨hhigh, hlow⟩ := not_surrogate c
  simp [readEscape, readCodePoint, readUnit_of_spellsUnit h, hhigh, hlow, bind, Except.bind,
    pure, Except.pure]

theorem readEscape_pair {high low : Nat} {ds' : List Char} (hhigh : 0xD800 ≤ high ∧ high < 0xDC00)
    (hlow : 0xDC00 ≤ low ∧ low < 0xE000)
    (hc : c.toNat = 0x10000 + (high - 0xD800) * 0x400 + (low - 0xDC00))
    (h : SpellsUnit high ds) (h' : SpellsUnit low ds') (rest : List Char) :
    readEscape ('u' :: (ds ++ '\\' :: 'u' :: (ds' ++ rest))) = .ok (c, rest) := by
  have hh : isHighSurrogate high = true := by simp [isHighSurrogate]; omega
  have hh' : isLowSurrogate high = false := by simp [isLowSurrogate]; omega
  have hl : isLowSurrogate low = true := by simp [isLowSurrogate]; omega
  have hof : ofSurrogates high low = c := by rw [ofSurrogates, ← hc, Char.ofNat_toNat]
  simp [readEscape, readCodePoint, readLowSurrogate, readUnit_of_spellsUnit h,
    readUnit_of_spellsUnit h', hh, hh', hl, hof, bind, Except.bind, pure, Except.pure]

end Escapes

section Strings

variable {c : Char} {cs rest text after : List Char}

theorem readString_escape (he : readEscape cs = .ok (c, rest))
    (h : readString rest = .ok (text, after)) :
    readString ('\\' :: cs) = .ok (c :: text, after) := by
  rw [readString, if_neg (by decide), if_pos rfl]
  split
  · next f hf => rw [he] at hf; cases hf
  · next x rest' hx =>
    rw [he] at hx
    cases hx
    simp only [h]

theorem readString_plain (hq : c ≠ '"') (hb : c ≠ '\\') (hc : 0x20 ≤ c.toNat)
    (h : readString rest = .ok (text, after)) :
    readString (c :: rest) = .ok (c :: text, after) := by
  have hcontrol : isControl c = false := by simp [isControl]; omega
  rw [readString, if_neg hq, if_neg hb, hcontrol]
  simp [h]

theorem skipString_escape (he : skipEscape cs = .ok rest) :
    skipString ('\\' :: cs) = skipString rest := by
  rw [skipString, if_neg (by decide), if_pos rfl]
  split
  · next f hf => rw [he] at hf; cases hf
  · next rest' hr =>
    rw [he] at hr
    cases hr
    rfl

theorem skipString_plain (hq : c ≠ '"') (hb : c ≠ '\\') (hc : 0x20 ≤ c.toNat) :
    skipString (c :: rest) = skipString rest := by
  have hcontrol : isControl c = false := by simp [isControl]; omega
  rw [skipString, if_neg hq, if_neg hb, hcontrol]
  simp

end Strings

variable {text body : List Char}

/-- A text is read from each of its spellings. -/
theorem readString_of_spells (h : Spells text body) (rest : List Char) :
    readString (body ++ '"' :: rest) = .ok (text, rest) := by
  induction h with
  | nil => rw [List.nil_append, readString, if_pos rfl]
  | plain hq hb hc _ ih => exact readString_plain hq hb hc ih
  | short he _ ih => exact readString_escape (readEscape_short he _) ih
  | unit hu _ ih =>
    simp only [List.cons_append, List.append_assoc]
    exact readString_escape (readEscape_unit hu _) ih
  | pair hhigh hlow hc hu hu' _ ih =>
    simp only [List.cons_append, List.append_assoc]
    exact readString_escape (readEscape_pair hhigh hlow hc hu hu' _) ih

theorem skipString_of_spells (h : Spells text body) (rest : List Char) :
    skipString (body ++ '"' :: rest) = .ok rest := by
  induction h with
  | nil => rw [List.nil_append, skipString, if_pos rfl]
  | plain hq hb hc _ ih => rw [List.cons_append, skipString_plain hq hb hc, ih]
  | short he _ ih =>
    simp only [List.cons_append]
    rw [skipString_escape (skipEscape_short he _), ih]
  | unit hu _ ih =>
    simp only [List.cons_append, List.append_assoc]
    rw [skipString_escape (skipEscape_unit hu _), ih]
  | pair _ _ _ hu hu' _ ih =>
    simp only [List.cons_append, List.append_assoc]
    rw [skipString_escape (skipEscape_unit hu _), skipString_escape (skipEscape_unit hu' _), ih]

end EscapeClause.Json
