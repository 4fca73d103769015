import EscapeClause.Json.Fault

/-! JSON numbers. `readNumber` takes one apart; where the text ends inside it, the caller
says what that means. A number is out of range when it is infinite as a 64-bit float. -/

namespace EscapeClause.Json

/-- An unsigned number by the digits of its two parts and its exponent. -/
structure Number where
  whole : List Char
  fraction : List Char
  exponent : Int
  deriving DecidableEq, Repr

/-- Reads digits, at least one. -/
def readDigits (atEnd : Cause) (cs : List Char) : Except Fault (List Char × List Char) :=
  match cs with
  | [] => .error ⟨atEnd, []⟩
  | c :: rest =>
    if c.isDigit then .ok (c :: rest.takeWhile Char.isDigit, rest.dropWhile Char.isDigit)
    else .error ⟨.invalidNumber, rest⟩

/-- Reads the whole part. A zero in front has to be the only digit. -/
def readWhole (atEnd : Cause) (cs : List Char) : Except Fault (List Char × List Char) :=
  match readDigits atEnd cs with
  | .ok ('0' :: _ :: _, rest) => .error ⟨.invalidNumber, rest⟩
  | r => r

def readFraction (atEnd : Cause) : List Char → Except Fault (List Char × List Char)
  | '.' :: cs => readDigits atEnd cs
  | cs => .ok ([], cs)

/-- The number that decimal digits spell behind those of `n`. -/
def ofDigits (n : Nat) (ds : List Char) : Nat :=
  ds.foldl (fun n d => n * 10 + (d.toNat - '0'.toNat)) n

/-- The sign in front, as a factor, and what follows it. -/
def splitSign : List Char → Int × List Char
  | '-' :: cs => (-1, cs)
  | '+' :: cs => (1, cs)
  | cs => (1, cs)

def readSigned (atEnd : Cause) (cs : List Char) : Except Fault (Int × List Char) := do
  let (ds, rest) ← readDigits atEnd (splitSign cs).2
  return ((splitSign cs).1 * ofDigits 0 ds, rest)

def readExponent (atEnd : Cause) : List Char → Except Fault (Int × List Char)
  | 'e' :: cs => readSigned atEnd cs
  | 'E' :: cs => readSigned atEnd cs
  | cs => .ok (0, cs)

def dropMinus : List Char → List Char
  | '-' :: cs => cs
  | cs => cs

def readNumber (atEnd : Cause) (cs : List Char) : Except Fault (Number × List Char) := do
  let (whole, cs) ← readWhole atEnd (dropMinus cs)
  let (fraction, cs) ← readFraction atEnd cs
  let (exponent, cs) ← readExponent atEnd cs
  return (⟨whole, fraction, exponent⟩, cs)

/-- Appends digits to `n` as long as it stays below 2^64, and counts the digits left out. -/
def takeIn (n : Nat) : List Char → Nat × Nat
  | [] => (n, 0)
  | d :: ds =>
    let m := ofDigits n [d]
    if m < 2 ^ 64 then takeIn m ds else (n, ds.length + 1)

/-- Whether the number is infinite as a product of floats: of what its first digits
spell, and of a power of ten. -/
def Number.isOutOfRange (n : Number) : Bool :=
  let (whole, dropped) := takeIn 0 n.whole
  let (significand, unused) := takeIn whole n.fraction
  let exponent : Int := dropped - (n.fraction.length - unused : Nat) + n.exponent
  significand != 0 && (308 < exponent ||
    0 ≤ exponent && (Float.ofNat significand * Float.ofScientific 1 false exponent.toNat).isInf)

theorem length_rest_lt_of_readDigits {atEnd : Cause} {cs ds rest : List Char}
    (h : readDigits atEnd cs = .ok (ds, rest)) : rest.length < cs.length := by
  unfold readDigits at h
  split at h
  · contradiction
  split at h
  · obtain ⟨-, rfl⟩ := Prod.mk.inj (Except.ok.inj h)
    exact Nat.lt_succ_of_le (List.dropWhile_suffix _).length_le
  · contradiction

theorem length_rest_lt_of_readWhole {atEnd : Cause} {cs ds rest : List Char}
    (h : readWhole atEnd cs = .ok (ds, rest)) : rest.length < cs.length := by
  unfold readWhole at h
  split at h
  · contradiction
  · exact length_rest_lt_of_readDigits h

theorem length_rest_le_of_readFraction {atEnd : Cause} {cs ds rest : List Char}
    (h : readFraction atEnd cs = .ok (ds, rest)) : rest.length ≤ cs.length := by
  unfold readFraction at h
  split at h
  · exact Nat.le_succ_of_le (Nat.le_of_lt (length_rest_lt_of_readDigits h))
  · obtain ⟨-, rfl⟩ := Prod.mk.inj (Except.ok.inj h)
    exact Nat.le_refl _

theorem length_splitSign_le (cs : List Char) : (splitSign cs).2.length ≤ cs.length := by
  unfold splitSign
  split <;> simp

theorem length_rest_lt_of_readSigned {atEnd : Cause} {cs rest : List Char} {n : Int}
    (h : readSigned atEnd cs = .ok (n, rest)) : rest.length < cs.length := by
  obtain ⟨⟨ds, after⟩, hd, h⟩ := bind_eq_ok_iff.1 h
  obtain ⟨-, rfl⟩ := Prod.mk.inj (Except.ok.inj h)
  exact Nat.lt_of_lt_of_le (length_rest_lt_of_readDigits hd) (length_splitSign_le cs)

theorem length_rest_le_of_readExponent {atEnd : Cause} {cs rest : List Char} {n : Int}
    (h : readExponent atEnd cs = .ok (n, rest)) : rest.length ≤ cs.length := by
  unfold readExponent at h
  split at h
  · exact Nat.le_succ_of_le (Nat.le_of_lt (length_rest_lt_of_readSigned h))
  · exact Nat.le_succ_of_le (Nat.le_of_lt (length_rest_lt_of_readSigned h))
  · obtain ⟨-, rfl⟩ := Prod.mk.inj (Except.ok.inj h)
    exact Nat.le_refl _

theorem length_dropMinus_le (cs : List Char) : (dropMinus cs).length ≤ cs.length := by
  unfold dropMinus
  split <;> simp

theorem length_rest_lt_of_readNumber {atEnd : Cause} {cs rest : List Char} {n : Number}
    (h : readNumber atEnd cs = .ok (n, rest)) : rest.length < cs.length := by
  obtain ⟨⟨whole, cs₁⟩, hw, h⟩ := bind_eq_ok_iff.1 h
  obtain ⟨⟨fraction, cs₂⟩, hf, h⟩ := bind_eq_ok_iff.1 h
  obtain ⟨⟨exponent, cs₃⟩, he, h⟩ := bind_eq_ok_iff.1 h
  obtain ⟨-, rfl⟩ := Prod.mk.inj (Except.ok.inj h)
  have := length_dropMinus_le cs
  have := length_rest_lt_of_readWhole hw
  have := length_rest_le_of_readFraction hf
  have := length_rest_le_of_readExponent he
  omega

end EscapeClause.Json
