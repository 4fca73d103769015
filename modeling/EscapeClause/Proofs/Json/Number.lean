import EscapeClause.Json.Number

/-! How a number is written. Main statement: a numeral is read to its end, wherever what follows
cannot go on with it. -/

namespace EscapeClause.Json

/-- Digits, at least one. -/
structure IsDigits (ds : List Char) : Prop where
  ne_nil : ds ≠ []
  isDigit : ∀ d ∈ ds, d.isDigit = true

inductive IsFraction : List Char → Prop where
  | none : IsFraction []
  | digits {ds : List Char} (h : IsDigits ds) : IsFraction ('.' :: ds)

inductive IsExponent : List Char → Prop where
  | none : IsExponent []
  | digits {e : Char} {sign ds : List Char} (he : e = 'e' ∨ e = 'E')
      (hs : sign = [] ∨ sign = ['+'] ∨ sign = ['-']) (h : IsDigits ds) :
      IsExponent (e :: (sign ++ ds))

/-- A number as it is written. Only the digits of its whole part have to be there, and a zero
in front is the only one of them. -/
inductive IsNumeral : List Char → Prop where
  | mk {sign whole fraction exponent : List Char} (hs : sign = [] ∨ sign = ['-'])
      (hw : IsDigits whole) (hz : whole.head? = some '0' → whole = ['0'])
      (hf : IsFraction fraction) (he : IsExponent exponent) :
      IsNumeral (sign ++ (whole ++ (fraction ++ exponent)))

/-- Nothing here goes on with a number. -/
def EndsNumber (rest : List Char) : Prop :=
  ∀ c ∈ rest.head?, c.isDigit = false ∧ c ≠ '.' ∧ c ≠ 'e' ∧ c ≠ 'E'

section Parts

variable {cs ds rest : List Char}

theorem IsDigits.exists_cons (h : IsDigits ds) : ∃ d tail, ds = d :: tail ∧ d.isDigit = true := by
  obtain ⟨d, tail, rfl⟩ := List.exists_cons_of_ne_nil h.ne_nil
  exact ⟨d, tail, rfl, h.isDigit d List.mem_cons_self⟩

theorem EndsNumber.isDigit (h : EndsNumber rest) : ∀ c ∈ rest.head?, c.isDigit = false :=
  fun c hc => (h c hc).1

theorem takeWhile_isDigit (h : ∀ c ∈ rest.head?, c.isDigit = false) :
    rest.takeWhile Char.isDigit = [] ∧ rest.dropWhile Char.isDigit = rest := by
  cases rest with
  | nil => simp
  | cons c rest => simp [h c rfl]

theorem readDigits_of_isDigits (h : IsDigits ds) (hr : ∀ c ∈ rest.head?, c.isDigit = false)
    (atEnd : Cause) : readDigits atEnd (ds ++ rest) = .ok (ds, rest) := by
  obtain ⟨d, tail, rfl, hd⟩ := h.exists_cons
  obtain ⟨htake, hdrop⟩ := takeWhile_isDigit hr
  have htail : ∀ c ∈ tail, c.isDigit = true := fun c hc => h.isDigit c (List.mem_cons_of_mem d hc)
  rw [List.cons_append, readDigits, if_pos hd, List.takeWhile_append_of_pos htail,
    List.dropWhile_append_of_pos htail, htake, hdrop, List.append_nil]

theorem readWhole_of_isDigits (h : IsDigits ds) (hz : ds.head? = some '0' → ds = ['0'])
    (hr : ∀ c ∈ rest.head?, c.isDigit = false) (atEnd : Cause) :
    readWhole atEnd (ds ++ rest) = .ok (ds, rest) := by
  rw [readWhole, readDigits_of_isDigits h hr]
  split
  · next hzero =>
    cases hzero
    cases hz rfl
  · rfl

theorem IsExponent.head?_append (h : IsExponent cs) (hr : EndsNumber rest) :
    ∀ c ∈ (cs ++ rest).head?, c.isDigit = false ∧ c ≠ '.' := by
  cases h with
  | none => exact fun c hc => ⟨(hr c hc).1, (hr c hc).2.1⟩
  | digits he =>
    rintro c ⟨⟩
    rcases he with rfl | rfl <;> decide

theorem IsFraction.head?_append (h : IsFraction cs)
    (hr : ∀ c ∈ rest.head?, c.isDigit = false ∧ c ≠ '.') :
    ∀ c ∈ (cs ++ rest).head?, c.isDigit = false := by
  cases h with
  | none => exact fun c hc => (hr c hc).1
  | digits h =>
    rintro c ⟨⟩
    decide

theorem exists_readFraction_eq (h : IsFraction cs)
    (hr : ∀ c ∈ rest.head?, c.isDigit = false ∧ c ≠ '.') (atEnd : Cause) :
    ∃ ds, readFraction atEnd (cs ++ rest) = .ok (ds, rest) := by
  cases h with
  | none =>
    refine ⟨[], ?_⟩
    rw [List.nil_append, readFraction]
    rintro tail rfl
    exact (hr '.' rfl).2 rfl
  | digits h => exact ⟨_, readDigits_of_isDigits h (fun c hc => (hr c hc).1) atEnd⟩

theorem splitSign_append {sign : List Char} (hs : sign = [] ∨ sign = ['+'] ∨ sign = ['-'])
    (h : IsDigits ds) (rest : List Char) : (splitSign (sign ++ (ds ++ rest))).2 = ds ++ rest := by
  rcases hs with rfl | rfl | rfl
  · obtain ⟨d, tail, rfl, hd⟩ := h.exists_cons
    rw [List.nil_append, List.cons_append, splitSign]
    · rintro cs ⟨⟩
      cases hd
    · rintro cs ⟨⟩
      cases hd
  · rfl
  · rfl

theorem exists_readExponent_eq (h : IsExponent cs) (hr : EndsNumber rest) (atEnd : Cause) :
    ∃ n, readExponent atEnd (cs ++ rest) = .ok (n, rest) := by
  cases h with
  | none =>
    refine ⟨0, ?_⟩
    rw [List.nil_append, readExponent]
    · rintro tail rfl
      exact (hr 'e' rfl).2.2.1 rfl
    · rintro tail rfl
      exact (hr 'E' rfl).2.2.2 rfl
  | @digits e sign ds he hs h =>
    have hsigned : ∃ n, readSigned atEnd (sign ++ (ds ++ rest)) = .ok (n, rest) := by
      rw [readSigned, splitSign_append hs h, readDigits_of_isDigits h hr.isDigit]
      exact ⟨_, rfl⟩
    rcases he with rfl | rfl <;> simpa [readExponent] using hsigned

theorem dropMinus_append {sign : List Char} (hs : sign = [] ∨ sign = ['-']) (h : IsDigits ds)
    (rest : List Char) : dropMinus (sign ++ (ds ++ rest)) = ds ++ rest := by
  rcases hs with rfl | rfl
  · obtain ⟨d, tail, rfl, hd⟩ := h.exists_cons
    rw [List.nil_append, List.cons_append, dropMinus]
    rintro cs ⟨⟩
    cases hd
  · rfl

end Parts

variable {cs rest : List Char}

/-- A numeral is read to its end. -/
theorem exists_readNumber_eq (h : IsNumeral cs) (hr : EndsNumber rest) (atEnd : Cause) :
    ∃ n, readNumber atEnd (cs ++ rest) = .ok (n, rest) := by
  cases h with
  | @mk sign whole fraction exponent hs hw hz hf he =>
    have hexponent := he.head?_append hr
    have hwhole := readWhole_of_isDigits hw hz (hf.head?_append hexponent) atEnd
    obtain ⟨ds, hfraction⟩ := exists_readFraction_eq hf hexponent atEnd
    obtain ⟨n, hexp⟩ := exists_readExponent_eq he hr atEnd
    refine ⟨⟨whole, ds, n⟩, ?_⟩
    simp only [List.append_assoc]
    rw [readNumber, dropMinus_append hs hw]
    simp only [hwhole, hfraction, hexp, bind, Except.bind, pure, Except.pure]

theorem IsNumeral.exists_cons (h : IsNumeral cs) :
    ∃ c tail, cs = c :: tail ∧ (c = '-' ∨ c.isDigit = true) := by
  obtain ⟨hs, hw, hz, hf, he⟩ := h
  obtain ⟨d, tail, rfl, hd⟩ := hw.exists_cons
  rcases hs with rfl | rfl
  · exact ⟨d, _, rfl, .inr hd⟩
  · exact ⟨'-', _, rfl, .inl rfl⟩

end EscapeClause.Json
