import EscapeClause.Json.Record
import EscapeClause.Proofs.Json.Value

/-! What the text of an object gives for a record with one boolean field. Only the values of the
field count: none of them leaves the initial value, a single boolean is taken, and everything
else is refused. Main statement: this holds of every object, however it is written and whatever
its other members are. -/

namespace EscapeClause

theorem toOption_bind {ε α β : Type} (r : Except ε α) (f : α → Except ε β) :
    (r >>= f).toOption = r.toOption.bind fun a => (f a).toOption := by
  cases r <;> rfl

theorem toOption_eq_some_iff {ε α : Type} {r : Except ε α} {a : α} :
    r.toOption = some a ↔ r = .ok a := by
  cases r <;> simp [Except.toOption]

namespace Json.Record

/-- The values of the members with a name, in their order. -/
def valuesOf (name : String) (members : List (String × Value)) : List Value :=
  (members.filter (·.1 = name)).map (·.2)

/-- What the values of a field come to, if they are accepted. -/
def accepted : List Value → Option (Option Bool)
  | [] => some none
  | [.boolean b] => some (some b)
  | _ => none

theorem valuesOf_append (name : String) (ms ms' : List (String × Value)) :
    valuesOf name (ms ++ ms') = valuesOf name ms ++ valuesOf name ms' := by
  rw [valuesOf, List.filter_append, List.map_append]
  rfl

theorem valuesOf_eq_self (name : String) (v : Value) : valuesOf name [(name, v)] = [v] := by
  simp [valuesOf]

theorem valuesOf_eq_nil {name : String} {ms : List (String × Value)}
    (h : ∀ m ∈ ms, m.1 ≠ name) : valuesOf name ms = [] := by
  simpa [valuesOf, List.filter_eq_nil_iff] using h

theorem accepted_of_two_le {vs : List Value} (h : 2 ≤ vs.length) : accepted vs = none := by
  match vs, h with
  | _ :: _ :: _, _ => simp [accepted]

theorem accepted_of_mem {vs : List Value} {v : Value} (hv : v ∈ vs) (hb : ∀ b, v ≠ .boolean b) :
    accepted vs = none := by
  match vs, hv with
  | [_], .head _ =>
    rw [accepted]
    · rintro ⟨⟩
    · rintro b ⟨⟩
      exact hb b rfl
  | _ :: _ :: _, _ => simp [accepted]

/-- Of the values in front no more counts than what they come to. -/
theorem accepted_append (vs ws : List Value) :
    accepted (vs ++ ws) =
      (accepted vs).bind fun found => accepted (found.toList.map .boolean ++ ws) := by
  match vs with
  | [] => rfl
  | [.boolean _] => rfl
  | _ :: _ :: _ => rw [accepted_of_two_le (by simp), accepted_of_two_le (by simp)]; rfl
  | [.null] | [.number _] | [.string _] | [.list _] | [.object _] =>
    rw [List.singleton_append]
    exact accepted_of_mem List.mem_cons_self (by simp)

section Flag

variable {v : Value} {b : Bool} {cs rest : List Char}

theorem readFlag_append {g : List Char} (hg : IsSpace g) (cs : List Char) :
    readFlag (g ++ cs) = readFlag cs := by
  rw [readFlag, readFlag, dropBlanks_append hg]

theorem readFlag_boolean (h : Written (.value (.boolean b)) cs) (rest : List Char) :
    readFlag (cs ++ rest) = .ok (b, rest) := by
  cases h <;> rfl

theorem readFlag_of_before {shape : Shape} {c : Char} {r : Except Fault (List Char)}
    (hc : isBlank c = false) (h : readShape .checked (c :: cs) = shape.before r)
    (hs : ∀ b, shape ≠ .boolean b) : (readFlag (c :: cs)).toOption = none := by
  rw [readFlag, dropBlanks_cons hc, h]
  cases r with
  | error f => rfl
  | ok rest =>
    cases shape with
    | boolean b => exact absurd rfl (hs b)
    | _ => rfl

theorem readFlag_of_not_boolean (h : Written (.value v) cs) (hv : ∀ b, v ≠ .boolean b)
    (rest : List Char) : (readFlag (cs ++ rest)).toOption = none := by
  cases h with
  | yes => exact absurd rfl (hv true)
  | no => exact absurd rfl (hv false)
  | number h =>
    obtain ⟨c, tail, rfl, hc⟩ := h.exists_cons
    exact readFlag_of_before (isBlank_of_digit hc) (readShape_of_digit hc) (by simp)
  | null => exact readFlag_of_before (r := readWord _ _) rfl rfl (by simp)
  | string h => exact readFlag_of_before rfl rfl (by simp)
  | emptyList | list => exact readFlag_of_before (r := .ok _) rfl rfl (by simp)
  | emptyObject | object => exact readFlag_of_before (r := .ok _) rfl rfl (by simp)

theorem readFlag_of_written (h : Written (.value v) cs) (rest : List Char) :
    (readFlag (cs ++ rest) >>= fun r => .ok (some r.1, r.2)).toOption =
      (accepted [v]).map (·, rest) := by
  by_cases hflag : ∃ b, v = .boolean b
  · obtain ⟨b, rfl⟩ := hflag
    rw [readFlag_boolean h]
    rfl
  · have hne : ∀ b, v ≠ .boolean b := fun b hb => hflag ⟨b, hb⟩
    rw [toOption_bind, readFlag_of_not_boolean h hne, accepted_of_mem List.mem_cons_self hne]
    rfl

end Flag

section Members

variable (name : String) {key : String} {v : Value} {members : List (String × Value)}
  {g g' body cs rest : List Char}

theorem readMember_unknown (hb : Spells key.toList body) (hk : key ≠ name) (hg : IsSpace g)
    (found : Option Bool) (rest : List Char) :
    readMember name found (body ++ '"' :: (g ++ ':' :: rest)) =
      return (found, ← skipValue rest) := by
  have hne : key.toList ≠ name.toList := fun h => hk (String.toList_inj.1 h)
  simp only [readMember, readString_of_spells hb, if_pos hne, skipColon_append hg, bind,
    Except.bind]

/-- Where the field was found already, no value is accepted any more. -/
theorem readMember_known (hb : Spells name.toList body) (hg : IsSpace g) (hg' : IsSpace g')
    (h : Written (.value v) cs) (found : Option Bool) (rest : List Char) :
    (readMember name found (body ++ '"' :: (g ++ ':' :: (g' ++ (cs ++ rest))))).toOption =
      (accepted (found.toList.map .boolean ++ [v])).map (·, rest) := by
  cases found with
  | some b =>
    rw [accepted_of_two_le (by simp)]
    simp [readMember, readString_of_spells hb, bind, Except.bind, throw, throwThe,
      MonadExceptOf.throw, Except.toOption]
  | none =>
    have hmember : readMember name none (body ++ '"' :: (g ++ ':' :: (g' ++ (cs ++ rest)))) =
        readFlag (cs ++ rest) >>= fun r => .ok (some r.1, r.2) := by
      simp [readMember, readString_of_spells hb, skipColon_append hg, readFlag_append hg', bind,
        Except.bind, pure, Except.pure]
    rw [hmember]
    exact readFlag_of_written h rest

/-- A member is read from behind the quote that opens its key, up to blanks behind it. -/
theorem readMember_of_written (h : Written (.member key v) cs) (hr : EndsNumber rest) :
    ∃ tail g, IsSpace g ∧ (∀ inside, openKey inside (cs ++ rest) = .ok tail) ∧
      ∀ found, (readMember name found tail).toOption =
        (accepted (found.toList.map .boolean ++ valuesOf name [(key, v)])).map (·, g ++ rest) := by
  cases h with
  | field hg hb hg' hv =>
    simp only [List.append_assoc, List.cons_append]
    by_cases hk : key = name
    · subst hk
      cases hv with
      | spaced hbefore hv hbehind =>
        simp only [List.append_assoc]
        refine ⟨_, _, hbehind, fun inside => openKey_append hg inside _, fun found => ?_⟩
        rw [valuesOf_eq_self]
        exact readMember_known key hb hg' hbefore hv found _
    · have hother : valuesOf name [(key, v)] = [] := valuesOf_eq_nil (by simpa using hk)
      obtain ⟨g, hspace, hskip⟩ := skipValue_of_written hv hr
      refine ⟨_, g, hspace, fun inside => openKey_append hg inside _, fun found => ?_⟩
      rw [readMember_unknown name hb hk hg', hskip, hother, List.append_nil]
      cases found <;> rfl

theorem readMembers_finished (first : Bool) (found : Option Bool) (hg : IsSpace g)
    (rest : List Char) : readMembers name first found (g ++ '}' :: rest) = .ok (found, rest) := by
  have hc : continuation first (g ++ '}' :: rest) = .ok (.finished rest) := by
    rw [continuation, dropBlanks_append hg, dropBlanks_cons (by decide)]
    rfl
  rw [readMembers]
  split
  · next h => rw [hc] at h; cases h
  · next h => rw [hc] at h; cases h; rfl
  · next h => rw [hc] at h; cases h

theorem readMembers_member {first : Bool} {tail : List Char}
    (hc : continuation first cs = .ok (.member tail)) (found : Option Bool) :
    readMembers name first found cs =
      readMember name found tail >>= fun r => readMembers name false r.1 r.2 := by
  rw [readMembers]
  split
  · next h => rw [hc] at h; cases h
  · next h => rw [hc] at h; cases h
  · next h =>
    rw [hc] at h
    cases h
    split
    · next h => simp only [h]; rfl
    · next h => simp only [h]; rfl

theorem continuation_first {c : Char} {tail : List Char} (hd : dropBlanks cs = c :: rest)
    (hc : c ≠ '}') (ho : openKey .object cs = .ok tail) :
    continuation true cs = .ok (.member tail) := by
  rw [openKey, ← dropBlanks_dropBlanks, hd] at ho
  rw [continuation, hd]
  simp only [if_neg hc, if_true]
  rw [openKey, ho]
  rfl

theorem continuation_comma {tail : List Char} (hg : IsSpace g)
    (ho : openKey .value cs = .ok tail) :
    continuation false (g ++ ',' :: cs) = .ok (.member tail) := by
  rw [continuation, dropBlanks_append hg, dropBlanks_cons (by decide)]
  simp [ho, bind, Except.bind, pure, Except.pure]

/-- The members of an object are read from behind the first quote up to the closing brace. -/
theorem readMembers_of_written (h : Written (.members members) cs) (rest : List Char) :
    ∃ tail, (∀ inside, openKey inside (cs ++ '}' :: rest) = .ok tail) ∧
      ∀ found, (readMember name found tail >>= fun r => readMembers name false r.1 r.2).toOption =
        (accepted (found.toList.map .boolean ++ valuesOf name members)).map (·, rest) := by
  -- `found` stands for the members in front, so the induction leaves it open.
  induction members generalizing cs with
  | nil => cases h
  | cons m members ih =>
    cases h with
    | member h =>
      obtain ⟨tail, g, hg, hopen, hread⟩ :=
        readMember_of_written name h (endsNumber_closer .object rest)
      refine ⟨tail, hopen, fun found => ?_⟩
      rw [toOption_bind, hread]
      cases accepted (found.toList.map .boolean ++ valuesOf name [_]) with
      | none => rfl
      | some found =>
        exact congrArg Except.toOption (readMembers_finished name false found hg rest)
    | @members key v _ cs ds h hs =>
      obtain ⟨tail', hopens, hreads⟩ := ih hs
      obtain ⟨tail, g, hg, hopen, hread⟩ := readMember_of_written name h (endsNumber_comma _)
      rw [List.append_assoc, List.cons_append]
      refine ⟨tail, hopen, fun found => ?_⟩
      have hvalues : valuesOf name ((key, v) :: members) =
          valuesOf name [(key, v)] ++ valuesOf name members := valuesOf_append name [_] members
      rw [toOption_bind, hread, hvalues, ← List.append_assoc,
        accepted_append _ (valuesOf name members)]
      cases accepted (found.toList.map .boolean ++ valuesOf name [(key, v)]) with
      | none => rfl
      | some found =>
        have hnext := readMembers_member name (continuation_comma hg (hopens .value)) found
        exact (congrArg Except.toOption hnext).trans (hreads found)

end Members

section Texts

variable (name : String) {members : List (String × Value)} {cs : List Char}

theorem readFields_of_written (h : Written (.value (.object members)) cs) (rest : List Char) :
    (readFields name (cs ++ rest)).toOption = (accepted (valuesOf name members)).map (·, rest) := by
  cases h with
  | @emptyObject g hg =>
    have hread : readFields name ('{' :: (g ++ '}' :: rest)) = .ok (none, rest) :=
      readMembers_finished name true none hg rest
    simp only [List.cons_append, List.append_assoc, List.nil_append, hread]
    rfl
  | @object _ cs h =>
    obtain ⟨tail, hopen, hread⟩ := readMembers_of_written name h rest
    obtain ⟨c, after, hdrop, -, hc⟩ := h.exists_dropBlanks_eq ('}' :: rest)
    have hmembers : readFields name ('{' :: (cs ++ '}' :: rest)) = _ :=
      readMembers_member name (continuation_first hdrop hc (hopen .object)) none
    simp only [List.cons_append, List.append_assoc, List.nil_append, hmembers]
    exact hread none

theorem ofChars_of_written (h : Written (.spaced (.object members)) cs) :
    (ofChars name cs).toOption = accepted (valuesOf name members) := by
  cases h with
  | @spaced _ g cs g' hg h hg' =>
    have hspace : readFields name (g ++ (cs ++ g')) = readFields name (cs ++ g') := by
      rw [readFields, readFields, dropBlanks_append hg]
    rw [ofChars, hspace, toOption_bind, readFields_of_written name h]
    cases accepted (valuesOf name members) with
    | none => rfl
    | some found => simp [dropBlanks_space hg', pure, Except.pure, Except.toOption]

/-- What the text of an object gives, in terms of the values of the field. -/
theorem read_of_written (initial : Bool) {text : String}
    (h : Written (.spaced (.object members)) text.toList) :
    (read name initial text).toOption =
      (accepted (valuesOf name members)).map (·.getD initial) := by
  rw [read, ← ofChars_of_written name h]
  cases ofChars name text.toList <;> rfl

end Texts

end Json.Record

end EscapeClause
