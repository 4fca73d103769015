import EscapeClause.Json.Fault

/-! JSON strings, read from behind their opening quote. `readString` gives the text that
is meant and wants surrogates in pairs; `skipString` only looks for the end and lets
single surrogates pass. -/

namespace EscapeClause.Json

def hexDigit? (c : Char) : Option Nat :=
  if c.isDigit then some (c.toNat - '0'.toNat)
  else if 'a' ≤ c ∧ c ≤ 'f' then some (c.toNat - 'a'.toNat + 10)
  else if 'A' ≤ c ∧ c ≤ 'F' then some (c.toNat - 'A'.toNat + 10)
  else none

/-- Reads the four digits of a code unit. Fewer than four bytes are too few for it,
whatever they are. -/
def readUnit (cs : List Char) : Except Fault (Nat × List Char) :=
  match cs with
  | a :: b :: c :: d :: rest =>
    match hexDigit? a, hexDigit? b, hexDigit? c, hexDigit? d with
    | some a, some b, some c, some d => .ok (((a * 16 + b) * 16 + c) * 16 + d, rest)
    | _, _, _, _ => .error ⟨.invalidEscape, rest⟩
  | _ =>
    .error ⟨if Text.byteLength cs < 4 then .ended .string else .invalidEscape, []⟩

def isHighSurrogate (n : Nat) : Bool := 0xD800 ≤ n && n ≤ 0xDBFF

def isLowSurrogate (n : Nat) : Bool := 0xDC00 ≤ n && n ≤ 0xDFFF

/-- The character that two surrogates stand for. -/
def ofSurrogates (high low : Nat) : Char :=
  Char.ofNat (0x10000 + (high - 0xD800) * 0x400 + (low - 0xDC00))

/-- Reads the second half of a pair, an escape of its own. -/
def readLowSurrogate (high : Nat) : List Char → Except Fault (Char × List Char)
  | '\\' :: 'u' :: cs => do
    let (low, rest) ← readUnit cs
    if isLowSurrogate low then return (ofSurrogates high low, rest)
    else throw ⟨.unpairedSurrogate, rest⟩
  | [] | ['\\'] => .error ⟨.ended .string, []⟩
  | cs => .error ⟨.unpairedSurrogate, cs⟩

/-- What a backslash in front of one character means. -/
def escaped? : Char → Option Char
  | '"' => some '"'
  | '\\' => some '\\'
  | '/' => some '/'
  | 'b' => some '\x08'
  | 'f' => some '\x0c'
  | 'n' => some '\n'
  | 'r' => some '\r'
  | 't' => some '\t'
  | _ => none

/-- Reads the digits of a code unit, and of the other half if it is one of a pair. -/
def readCodePoint (cs : List Char) : Except Fault (Char × List Char) := do
  let (n, rest) ← readUnit cs
  if isLowSurrogate n then throw ⟨.unpairedSurrogate, rest⟩
  else if isHighSurrogate n then readLowSurrogate n rest
  else return (Char.ofNat n, rest)

/-- Reads what follows a backslash. -/
def readEscape : List Char → Except Fault (Char × List Char)
  | [] => .error ⟨.ended .string, []⟩
  | 'u' :: cs => readCodePoint cs
  | c :: cs =>
    match escaped? c with
    | some x => .ok (x, cs)
    | none => .error ⟨.invalidEscape, cs⟩

/-- Passes over what follows a backslash. -/
def skipEscape : List Char → Except Fault (List Char)
  | [] => .error ⟨.ended .string, []⟩
  | 'u' :: cs => return (← readUnit cs).2
  | c :: cs => if (escaped? c).isSome then .ok cs else .error ⟨.invalidEscape, cs⟩

def isControl (c : Char) : Bool := c.toNat < 0x20

theorem length_rest_le_of_readUnit {cs rest : List Char} {n : Nat}
    (h : readUnit cs = .ok (n, rest)) : rest.length ≤ cs.length := by
  unfold readUnit at h
  split at h
  · split at h
    · cases h
      simp only [List.length_cons]
      omega
    · cases h
  · cases h

theorem length_rest_le_of_readLowSurrogate {high : Nat} {cs rest : List Char} {c : Char}
    (h : readLowSurrogate high cs = .ok (c, rest)) : rest.length ≤ cs.length := by
  unfold readLowSurrogate at h
  split at h
  · obtain ⟨⟨low, after⟩, hu, h⟩ := bind_eq_ok_iff.1 h
    have hn := length_rest_le_of_readUnit hu
    by_cases hl : isLowSurrogate low
    · obtain ⟨-, rfl⟩ := Prod.mk.inj (Except.ok.inj ((if_pos hl).symm.trans h))
      exact Nat.le_succ_of_le (Nat.le_succ_of_le hn)
    · have h := (if_neg hl).symm.trans h
      contradiction
  all_goals contradiction

theorem length_rest_le_of_readCodePoint {cs rest : List Char} {c : Char}
    (h : readCodePoint cs = .ok (c, rest)) : rest.length ≤ cs.length := by
  obtain ⟨⟨n, after⟩, hu, h⟩ := bind_eq_ok_iff.1 h
  have hn := length_rest_le_of_readUnit hu
  dsimp only at h
  split at h
  · contradiction
  split at h
  · exact Nat.le_trans (length_rest_le_of_readLowSurrogate h) hn
  · obtain ⟨-, rfl⟩ := Prod.mk.inj (Except.ok.inj h)
    exact hn

theorem length_rest_le_of_readEscape {cs rest : List Char} {c : Char}
    (h : readEscape cs = .ok (c, rest)) : rest.length ≤ cs.length := by
  unfold readEscape at h
  split at h
  · contradiction
  · exact Nat.le_succ_of_le (length_rest_le_of_readCodePoint h)
  · split at h
    · obtain ⟨-, rfl⟩ := Prod.mk.inj (Except.ok.inj h)
      exact Nat.le_succ _
    · contradiction

theorem length_rest_le_of_skipEscape {cs rest : List Char}
    (h : skipEscape cs = .ok rest) : rest.length ≤ cs.length := by
  unfold skipEscape at h
  split at h
  · contradiction
  · obtain ⟨⟨n, after⟩, hu, h⟩ := bind_eq_ok_iff.1 h
    obtain rfl := Except.ok.inj h
    exact Nat.le_succ_of_le (length_rest_le_of_readUnit hu)
  · split at h
    · obtain rfl := Except.ok.inj h
      exact Nat.le_succ _
    · contradiction

/-- Reads the text of a string, up to and with its closing quote. -/
def readString (cs : List Char) : Except Fault (List Char × List Char) :=
  match cs with
  | [] => .error ⟨.ended .string, []⟩
  | c :: cs =>
    if c = '"' then .ok ([], cs)
    else if c = '\\' then
      match h : readEscape cs with
      | .error f => .error f
      | .ok (x, rest) =>
        have := length_rest_le_of_readEscape h
        match readString rest with
        | .error f => .error f
        | .ok (text, rest) => .ok (x :: text, rest)
    else if isControl c then .error ⟨.controlCharacter, cs⟩
    else
      match readString cs with
      | .error f => .error f
      | .ok (text, rest) => .ok (c :: text, rest)
termination_by cs.length

/-- Passes over a string, up to and with its closing quote. -/
def skipString (cs : List Char) : Except Fault (List Char) :=
  match cs with
  | [] => .error ⟨.ended .string, []⟩
  | c :: cs =>
    if c = '"' then .ok cs
    else if c = '\\' then
      match h : skipEscape cs with
      | .error f => .error f
      | .ok rest =>
        have := length_rest_le_of_skipEscape h
        skipString rest
    else if isControl c then .error ⟨.controlCharacter, cs⟩
    else skipString cs
termination_by cs.length

theorem length_rest_lt_of_readString {cs rest text : List Char}
    (h : readString cs = .ok (text, rest)) : rest.length < cs.length := by
  fun_induction readString cs generalizing text with
  | case2 => cases h; exact Nat.lt_succ_self _
  | case5 cs x after he _ text' rest' hr _ ih =>
    cases h
    have h₁ := length_rest_le_of_readEscape he
    have h₂ := ih hr
    simp only [List.length_cons]
    omega
  | case8 c cs _ _ _ text' rest' hr ih =>
    cases h
    have := ih hr
    simp only [List.length_cons]
    omega
  | _ => cases h

theorem length_rest_lt_of_skipString {cs rest : List Char}
    (h : skipString cs = .ok rest) : rest.length < cs.length := by
  fun_induction skipString cs with
  | case2 => cases h; exact Nat.lt_succ_self _
  | case4 cs after he _ _ ih =>
    have h₁ := length_rest_le_of_skipEscape he
    have h₂ := ih h
    simp only [List.length_cons]
    omega
  | case6 c cs _ _ _ ih =>
    have := ih h
    simp only [List.length_cons]
    omega
  | _ => cases h

end EscapeClause.Json
