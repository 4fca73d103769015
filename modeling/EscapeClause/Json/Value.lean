import EscapeClause.Json.Number
import EscapeClause.Json.Quoted

/-! JSON values. `readShape` tells what a value is from its beginning: a scalar is read
whole, of a list or an object only the bracket. `skipValue` passes over a value of any
depth and keeps no more than the open brackets. Main statement: every step of it
consumes text. -/

namespace EscapeClause.Json

def isBlank (c : Char) : Bool := c == ' ' || c == '\n' || c == '\t' || c == '\r'

def dropBlanks (cs : List Char) : List Char := cs.dropWhile isBlank

theorem length_dropBlanks_le (cs : List Char) : (dropBlanks cs).length ≤ cs.length :=
  (List.dropWhile_suffix _).length_le

/-- Reads the letters of a word. -/
def readWord : List Char → List Char → Except Fault (List Char)
  | [], cs => .ok cs
  | _ :: _, [] => .error ⟨.ended .value, []⟩
  | w :: ws, c :: cs => if c = w then readWord ws cs else .error ⟨.noWord, cs⟩

theorem length_rest_le_of_readWord {word cs rest : List Char} (h : readWord word cs = .ok rest) :
    rest.length ≤ cs.length := by
  fun_induction readWord word cs with
  | case1 => cases h; exact Nat.le_refl _
  | case3 w ws cs ih => exact Nat.le_succ_of_le (ih h)
  | _ => cases h

/-- How closely a value is read: `checked` where it matters, `passing` where it does
not. Only a checked string needs its surrogates in pairs and only a checked number has
to fit a float, and a number that the text breaks off is malformed in passing. -/
inductive Care where
  | checked
  | passing
  deriving DecidableEq, Repr

namespace Care

def string : Care → List Char → Except Fault (List Char)
  | checked, cs => return (← readString cs).2
  | passing, cs => skipString cs

def number : Care → List Char → Except Fault (List Char)
  | checked, cs => do
    let (n, rest) ← readNumber (.ended .value) cs
    if n.isOutOfRange then throw ⟨.numberOutOfRange, rest⟩ else return rest
  | passing, cs => return (← readNumber .invalidNumber cs).2

theorem length_rest_lt_of_string {care : Care} {cs rest : List Char}
    (h : care.string cs = .ok rest) : rest.length < cs.length := by
  rcases care with _ | _
  · obtain ⟨⟨text, after⟩, hs, h⟩ := bind_eq_ok_iff.1 h
    obtain rfl := Except.ok.inj h
    exact length_rest_lt_of_readString hs
  · exact length_rest_lt_of_skipString h

theorem length_rest_lt_of_number {care : Care} {cs rest : List Char}
    (h : care.number cs = .ok rest) : rest.length < cs.length := by
  rcases care with _ | _
  · obtain ⟨⟨n, after⟩, hn, h⟩ := bind_eq_ok_iff.1 h
    by_cases hr : n.isOutOfRange
    · have h := (if_pos hr).symm.trans h
      contradiction
    · obtain rfl := Except.ok.inj ((if_neg hr).symm.trans h)
      exact length_rest_lt_of_readNumber hn
  · obtain ⟨⟨n, after⟩, hn, h⟩ := bind_eq_ok_iff.1 h
    obtain rfl := Except.ok.inj h
    exact length_rest_lt_of_readNumber hn

end Care

/-- The shape of a scalar, if the scalar can be read. -/
def Shape.before (shape : Shape) (r : Except Fault (List Char)) :
    Except Fault (Shape × List Char) := return (shape, ← r)

theorem eq_ok_of_before {s shape : Shape} {r : Except Fault (List Char)} {rest : List Char}
    (h : s.before r = .ok (shape, rest)) : r = .ok rest := by
  obtain ⟨after, hr, h⟩ := bind_eq_ok_iff.1 h
  obtain ⟨-, rfl⟩ := Prod.mk.inj (Except.ok.inj h)
  exact hr

/-- Reads the shape of the value that the text begins with. -/
def readShape (care : Care) (cs : List Char) : Except Fault (Shape × List Char) :=
  match cs with
  | [] => .error ⟨.ended .value, []⟩
  | c :: rest =>
    if c = 'n' then Shape.null.before (readWord ['u', 'l', 'l'] rest)
    else if c = 't' then (Shape.boolean true).before (readWord ['r', 'u', 'e'] rest)
    else if c = 'f' then (Shape.boolean false).before (readWord ['a', 'l', 's', 'e'] rest)
    else if c = '"' then Shape.string.before (care.string rest)
    else if c = '[' then .ok (.list, rest)
    else if c = '{' then .ok (.object, rest)
    else if c = '-' ∨ c.isDigit then Shape.number.before (care.number cs)
    else .error ⟨.noValue, rest⟩

theorem length_rest_lt_of_readShape {care : Care} {cs rest : List Char} {shape : Shape}
    (h : readShape care cs = .ok (shape, rest)) : rest.length < cs.length := by
  have word {s : Shape} {w after : List Char}
      (h : s.before (readWord w after) = .ok (shape, rest)) : rest.length < after.length + 1 :=
    Nat.lt_succ_of_le (length_rest_le_of_readWord (eq_ok_of_before h))
  have bracket {s : Shape} {after : List Char}
      (h : (.ok (s, after) : Except Fault (Shape × List Char)) = .ok (shape, rest)) :
      rest.length < after.length + 1 := by
    obtain ⟨-, rfl⟩ := Prod.mk.inj (Except.ok.inj h)
    exact Nat.lt_succ_self _
  unfold readShape at h
  split at h
  · contradiction
  split at h
  · exact word h
  split at h
  · exact word h
  split at h
  · exact word h
  split at h
  · exact Nat.lt_succ_of_lt (Care.length_rest_lt_of_string (eq_ok_of_before h))
  split at h
  · exact bracket h
  split at h
  · exact bracket h
  split at h
  · exact Care.length_rest_lt_of_number (eq_ok_of_before h)
  · contradiction

/-- Passes over the colon of a member. -/
def skipColon (cs : List Char) : Except Fault (List Char) :=
  match dropBlanks cs with
  | [] => .error ⟨.ended .object, []⟩
  | c :: rest => if c = ':' then .ok rest else .error ⟨.noColon, rest⟩

/-- Passes over the quote that opens a key. `inside` is what an early end breaks off. -/
def openKey (inside : Unfinished) (cs : List Char) : Except Fault (List Char) :=
  match dropBlanks cs with
  | [] => .error ⟨.ended inside, []⟩
  | c :: rest => if c = '"' then .ok rest else .error ⟨.noKey, rest⟩

/-- Passes over the key and the colon of a member. -/
def skipKey (cs : List Char) : Except Fault (List Char) := do
  skipColon (← skipString (← openKey .object cs))

theorem length_rest_lt_of_skipColon {cs rest : List Char} (h : skipColon cs = .ok rest) :
    rest.length < cs.length := by
  refine Nat.lt_of_lt_of_le ?_ (length_dropBlanks_le cs)
  unfold skipColon at h
  split at h
  · contradiction
  next hd =>
  rw [hd]
  split at h
  · obtain rfl := Except.ok.inj h
    exact Nat.lt_succ_self _
  · contradiction

theorem length_rest_lt_of_openKey {inside : Unfinished} {cs rest : List Char}
    (h : openKey inside cs = .ok rest) : rest.length < cs.length := by
  refine Nat.lt_of_lt_of_le ?_ (length_dropBlanks_le cs)
  unfold openKey at h
  split at h
  · contradiction
  next hd =>
  rw [hd]
  split at h
  · obtain rfl := Except.ok.inj h
    exact Nat.lt_succ_self _
  · contradiction

theorem length_rest_lt_of_skipKey {cs rest : List Char} (h : skipKey cs = .ok rest) :
    rest.length < cs.length := by
  obtain ⟨cs₁, ho, h⟩ := bind_eq_ok_iff.1 h
  obtain ⟨cs₂, hs, h⟩ := bind_eq_ok_iff.1 h
  have := length_rest_lt_of_openKey ho
  have := length_rest_lt_of_skipString hs
  have := length_rest_lt_of_skipColon h
  omega

/-! ### Passing over a value -/

/-- What has to come next: a value, the first value inside a bracket or its end, or a
comma or the end. With it go the brackets that stay open around it. -/
inductive Awaited where
  | value (brackets : List Bracket)
  | first (b : Bracket) (brackets : List Bracket)
  | next (b : Bracket) (brackets : List Bracket)
  deriving DecidableEq, Repr

namespace Awaited

/-- What comes behind a value: nothing, if no bracket is open. -/
def behindValue : List Bracket → Option Awaited
  | [] => none
  | b :: brackets => some (next b brackets)

def behindShape (brackets : List Bracket) : Shape → Option Awaited
  | .list => some (first .list brackets)
  | .object => some (first .object brackets)
  | _ => behindValue brackets

def readValue (brackets : List Bracket) (cs : List Char) :
    Except Fault (Option Awaited × List Char) := do
  let (shape, rest) ← readShape .passing (dropBlanks cs)
  return (behindShape brackets shape, rest)

/-- Reads what stands between two commas, or of a member the key. -/
def readInside (b : Bracket) (brackets : List Bracket) (cs : List Char) :
    Except Fault (Option Awaited × List Char) :=
  match b with
  | .list => readValue (.list :: brackets) cs
  | .object => return (some (value (.object :: brackets)), ← skipKey cs)

def read (a : Awaited) (cs : List Char) : Except Fault (Option Awaited × List Char) :=
  match a with
  | value brackets => readValue brackets cs
  | first b brackets =>
    match dropBlanks cs with
    | [] => .error ⟨.ended b.unfinished, []⟩
    | c :: rest =>
      if c = b.closer then .ok (behindValue brackets, rest)
      else readInside b brackets (c :: rest)
  | next b brackets =>
    match dropBlanks cs with
    | [] => .error ⟨.ended b.unfinished, []⟩
    | c :: rest =>
      if c = b.closer then .ok (behindValue brackets, rest)
      else if c = ',' then readInside b brackets rest
      else .error ⟨.noCommaOrEnd b, rest⟩

theorem length_rest_lt_of_readValue {brackets : List Bracket} {cs rest : List Char}
    {a : Option Awaited} (h : readValue brackets cs = .ok (a, rest)) :
    rest.length < cs.length := by
  obtain ⟨⟨shape, after⟩, hs, h⟩ := bind_eq_ok_iff.1 h
  obtain ⟨-, rfl⟩ := Prod.mk.inj (Except.ok.inj h)
  exact Nat.lt_of_lt_of_le (length_rest_lt_of_readShape hs) (length_dropBlanks_le cs)

theorem length_rest_lt_of_readInside {b : Bracket} {brackets : List Bracket}
    {cs rest : List Char} {a : Option Awaited}
    (h : readInside b brackets cs = .ok (a, rest)) : rest.length < cs.length := by
  rcases b with _ | _
  · exact length_rest_lt_of_readValue h
  · obtain ⟨after, hk, h⟩ := bind_eq_ok_iff.1 h
    obtain ⟨-, rfl⟩ := Prod.mk.inj (Except.ok.inj h)
    exact length_rest_lt_of_skipKey hk

theorem length_rest_lt_of_read {a : Awaited} {cs rest : List Char} {a' : Option Awaited}
    (h : a.read cs = .ok (a', rest)) : rest.length < cs.length := by
  rcases a with brackets | ⟨b, brackets⟩ | ⟨b, brackets⟩
  · exact length_rest_lt_of_readValue h
  · refine Nat.lt_of_lt_of_le ?_ (length_dropBlanks_le cs)
    rw [read] at h
    split at h
    · contradiction
    next hd =>
    rw [hd]
    split at h
    · obtain ⟨-, rfl⟩ := Prod.mk.inj (Except.ok.inj h)
      exact Nat.lt_succ_self _
    · exact length_rest_lt_of_readInside h
  · refine Nat.lt_of_lt_of_le ?_ (length_dropBlanks_le cs)
    rw [read] at h
    split at h
    · contradiction
    next hd =>
    rw [hd]
    split at h
    · obtain ⟨-, rfl⟩ := Prod.mk.inj (Except.ok.inj h)
      exact Nat.lt_succ_self _
    split at h
    · exact Nat.lt_succ_of_lt (length_rest_lt_of_readInside h)
    · contradiction

end Awaited

/-- Passes over what is awaited and over the ends of all open brackets. -/
def skipFrom (a : Awaited) (cs : List Char) : Except Fault (List Char) :=
  match h : a.read cs with
  | .error f => .error f
  | .ok (none, rest) => .ok rest
  | .ok (some a, rest) =>
    have := Awaited.length_rest_lt_of_read h
    skipFrom a rest
termination_by cs.length

/-- Passes over one value. -/
def skipValue (cs : List Char) : Except Fault (List Char) := skipFrom (.value []) cs

theorem length_rest_lt_of_skipFrom {a : Awaited} {cs rest : List Char}
    (h : skipFrom a cs = .ok rest) : rest.length < cs.length := by
  fun_induction skipFrom a cs with
  | case1 => contradiction
  | case2 a cs after ha =>
    obtain rfl := Except.ok.inj h
    exact Awaited.length_rest_lt_of_read ha
  | case3 a cs a' after ha hl ih => exact Nat.lt_trans (ih h) hl

theorem length_rest_lt_of_skipValue {cs rest : List Char} (h : skipValue cs = .ok rest) :
    rest.length < cs.length := length_rest_lt_of_skipFrom h

end EscapeClause.Json
