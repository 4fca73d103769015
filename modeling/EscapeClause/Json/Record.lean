import EscapeClause.Json.Value

/-! Reading a record with one field, a boolean, from the text of an object. Other members are
passed over, a missing field keeps its initial value, and the field may come once. A list with
at most one element is read as well, as the fields in order. -/

namespace EscapeClause.Json.Record

def readFlag (cs : List Char) : Except Fault (Bool × List Char) := do
  match ← readShape .checked (dropBlanks cs) with
  | (.boolean b, rest) => return (b, rest)
  | (shape, rest) => throw ⟨.wrongShape shape "a boolean", rest⟩

/-- Reads a member from behind the quote that opens its key. `found` is the value of
the field, if it was there already. -/
def readMember (name : String) (found : Option Bool) (cs : List Char) :
    Except Fault (Option Bool × List Char) := do
  let (key, rest) ← readString cs
  if key ≠ name.toList then
    return (found, ← skipValue (← skipColon rest))
  else if found.isSome then
    throw ⟨.repeatedField name, rest⟩
  else
    let (b, rest) ← readFlag (← skipColon rest)
    return (some b, rest)

theorem length_rest_lt_of_readFlag {cs rest : List Char} {b : Bool}
    (h : readFlag cs = .ok (b, rest)) : rest.length < cs.length := by
  obtain ⟨⟨shape, after⟩, hs, h⟩ := bind_eq_ok_iff.1 h
  refine Nat.lt_of_lt_of_le ?_ (length_dropBlanks_le cs)
  rcases shape with _ | b
  case boolean =>
    obtain ⟨-, rfl⟩ := Prod.mk.inj (Except.ok.inj h)
    exact length_rest_lt_of_readShape hs
  all_goals contradiction

theorem length_rest_lt_of_readMember {name : String} {found found' : Option Bool}
    {cs rest : List Char} (h : readMember name found cs = .ok (found', rest)) :
    rest.length < cs.length := by
  obtain ⟨⟨key, cs₁⟩, hk, h⟩ := bind_eq_ok_iff.1 h
  have := length_rest_lt_of_readString hk
  dsimp only at h
  split at h
  · obtain ⟨cs₂, hc, h⟩ := bind_eq_ok_iff.1 h
    obtain ⟨cs₃, hv, h⟩ := bind_eq_ok_iff.1 h
    obtain ⟨-, rfl⟩ := Prod.mk.inj (Except.ok.inj h)
    have := length_rest_lt_of_skipColon hc
    have := length_rest_lt_of_skipValue hv
    omega
  split at h
  · contradiction
  · obtain ⟨cs₂, hc, h⟩ := bind_eq_ok_iff.1 h
    obtain ⟨⟨b, cs₃⟩, hf, h⟩ := bind_eq_ok_iff.1 h
    obtain ⟨-, rfl⟩ := Prod.mk.inj (Except.ok.inj h)
    have := length_rest_lt_of_skipColon hc
    have := length_rest_lt_of_readFlag hf
    show cs₃.length < cs.length
    omega

/-- How an object goes on: with a key, whose opening quote is read, or not at all. -/
inductive Continuation where
  | member (rest : List Char)
  | finished (rest : List Char)
  deriving DecidableEq, Repr

/-- Looks for the next member of an object or for its end. A comma has to stand in
front of every member but the `first`. -/
def continuation (first : Bool) (cs : List Char) : Except Fault Continuation :=
  match dropBlanks cs with
  | [] => .error ⟨.ended .object, []⟩
  | c :: rest =>
    if c = '}' then .ok (.finished rest)
    else if first then return .member (← openKey .object (c :: rest))
    else if c = ',' then return .member (← openKey .value rest)
    else .error ⟨.noCommaOrEnd .object, rest⟩

theorem length_rest_lt_of_continuation {first : Bool} {cs rest : List Char}
    (h : continuation first cs = .ok (.member rest)) : rest.length < cs.length := by
  refine Nat.lt_of_lt_of_le ?_ (length_dropBlanks_le cs)
  unfold continuation at h
  split at h
  · contradiction
  next hd =>
  rw [hd]
  split at h
  · cases h
  split at h
  · obtain ⟨after, ho, h⟩ := bind_eq_ok_iff.1 h
    obtain rfl := Continuation.member.inj (Except.ok.inj h)
    exact length_rest_lt_of_openKey ho
  split at h
  · obtain ⟨after, ho, h⟩ := bind_eq_ok_iff.1 h
    obtain rfl := Continuation.member.inj (Except.ok.inj h)
    exact Nat.lt_succ_of_lt (length_rest_lt_of_openKey ho)
  · contradiction

/-- Reads the members of an object, up to and with its closing brace. -/
def readMembers (name : String) (first : Bool) (found : Option Bool) (cs : List Char) :
    Except Fault (Option Bool × List Char) :=
  match h : continuation first cs with
  | .error f => .error f
  | .ok (.finished rest) => .ok (found, rest)
  | .ok (.member rest) =>
    match h' : readMember name found rest with
    | .error f => .error f
    | .ok (found, rest) =>
      have := length_rest_lt_of_continuation h
      have := length_rest_lt_of_readMember h'
      readMembers name false found rest
termination_by cs.length

/-- Reads the end of a list. -/
def closeList (cs : List Char) : Except Fault (List Char) :=
  match dropBlanks cs with
  | [] => .error ⟨.ended .list, []⟩
  | c :: rest => if c = ']' then .ok rest else .error ⟨.trailingCharacters, rest⟩

/-- Reads the fields in a list, up to and with its closing bracket. -/
def readElements (cs : List Char) : Except Fault (Option Bool × List Char) :=
  match dropBlanks cs with
  | [] => .error ⟨.ended .list, []⟩
  | c :: rest =>
    if c = ']' then .ok (none, rest)
    else do
      let (b, rest) ← readFlag (c :: rest)
      return (some b, ← closeList rest)

def readFields (name : String) (cs : List Char) : Except Fault (Option Bool × List Char) := do
  match ← readShape .checked (dropBlanks cs) with
  | (.object, rest) => readMembers name true none rest
  | (.list, rest) => readElements rest
  | (shape, rest) => throw ⟨.wrongShape shape "a record", rest⟩

/-- Reads a whole text. -/
def ofChars (name : String) (cs : List Char) : Except Fault (Option Bool) := do
  let (found, rest) ← readFields name cs
  match dropBlanks rest with
  | [] => return found
  | _ :: rest => throw ⟨.trailingCharacters, rest⟩

/-- The field `name` of the record that a text holds, which is `initial` where it is missing. -/
def read (name : String) (initial : Bool) (text : String) : Except ReadError Bool :=
  match ofChars name text.toList with
  | .error f => .error (f.error text.toList)
  | .ok found => .ok (found.getD initial)

end EscapeClause.Json.Record
