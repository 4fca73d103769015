import EscapeClause.NativeText
import EscapeClause.Proofs.Nesting

/-! The native text in terms of the items of a statement. -/

namespace EscapeClause

section Answer

variable {sql : String}

theorem nativeText_of_mem (h : '{' ∈ sql.toList) :
    nativeText sql true =
      match readStatement sql.toList with
      | .ok items => .ok (.ofItems sql items)
      | .error f => .error f.error :=
  if_pos (by simpa using h)

theorem nativeText_of_not_mem (h : '{' ∉ sql.toList) : nativeText sql true = .ok (.submitted sql) :=
  if_neg (by simpa using h)

end Answer

theorem Item.opensBrace_of_opensClause {i : Item} (h : i.opensClause = true) :
    i.opensBrace = true := by
  cases i with
  | opening gap binding marker => rfl
  | _ => cases h

namespace NativeText

/-- Where no clause opens none is closed either, and nothing is blanked. -/
theorem flatMap_output_of_not_opensClause {is : List Item} {level : Nat}
    (h : ∀ i ∈ is, i.opensClause = false) (hl : Nesting.levelBehind 0 is = .ok level) :
    is.flatMap Item.output = is.flatMap Item.source := by
  induction is with
  | nil => rfl
  | cons i is ih =>
    obtain ⟨hi, his⟩ := List.forall_mem_cons.1 h
    obtain ⟨next, hnext, hrest⟩ := Nesting.levelBehind_cons_eq_ok_iff.1 hl
    rw [List.flatMap_cons, List.flatMap_cons]
    cases i with
    | opening => cases hi
    | closing => cases hnext
    | native gap body =>
      cases hnext
      rw [ih his hrest]
      rfl
    | piece p =>
      cases hnext
      rw [ih his hrest]
      rfl

theorem opensClause_of_any_opensBrace {is : List Item} (h : is.any Item.opensBrace = false) :
    ∀ i ∈ is, i.opensClause = false :=
  fun i hi => Bool.eq_false_iff.2 (mt Item.opensBrace_of_opensClause (List.any_eq_false.1 h i hi))

theorem toList_text_ofItems {sql : String} {is : List Item} {level : Nat}
    (hs : is.flatMap Item.source = sql.toList) (hl : Nesting.levelBehind 0 is = .ok level) :
    (ofItems sql is).text.toList = is.flatMap Item.output := by
  rw [ofItems]
  split
  · exact String.toList_ofList
  · next h =>
    have hno := opensClause_of_any_opensBrace (by simpa using h)
    rw [flatMap_output_of_not_opensClause hno hl, hs]
    rfl

/-- A successful processing comes from a reading of the statement. -/
theorem exists_reading {sql : String} {t : NativeText} (hb : '{' ∈ sql.toList)
    (h : nativeText sql true = .ok t) :
    ∃ is, Reading.Complete none sql.toList is ∧ Nesting.levelBehind 0 is = .ok 0 ∧
      t = ofItems sql is ∧ t.text.toList = is.flatMap Item.output := by
  rw [nativeText_of_mem hb] at h
  split at h
  · next is hr =>
    obtain ⟨hread, hl⟩ := readStatement_eq_ok_iff.1 hr
    have hc := Reading.complete_iff.2 hread
    cases h
    exact ⟨is, hc, hl, rfl, toList_text_ofItems hc.flatMap_source hl⟩
  · cases h

end NativeText

section Reading

variable {sql : String}

/-- The texts that a statement may come out as are the outputs of its items. -/
theorem nativeText_text_iff (hb : '{' ∈ sql.toList) {out : List Char} :
    (∃ t, nativeText sql true = .ok t ∧ t.text.toList = out) ↔
      ∃ is, readStatement sql.toList = .ok is ∧ is.flatMap Item.output = out := by
  constructor
  · rintro ⟨t, ht, rfl⟩
    obtain ⟨is, hc, hl, -, hout⟩ := NativeText.exists_reading hb ht
    exact ⟨is, readStatement_eq_ok_iff.2 ⟨Reading.complete_iff.1 hc, hl⟩, hout.symm⟩
  · rintro ⟨is, his, rfl⟩
    obtain ⟨hr, hl⟩ := readStatement_eq_ok_iff.1 his
    have hsource := (Reading.complete_iff.2 hr).flatMap_source
    exact ⟨_, by rw [nativeText_of_mem hb, his], NativeText.toList_text_ofItems hsource hl⟩

theorem nativeText_eq_error_iff {e : StatementError} :
    nativeText sql true = .error e ↔
      '{' ∈ sql.toList ∧ ∃ f, readStatement sql.toList = .error f ∧ e = f.error := by
  by_cases hb : '{' ∈ sql.toList
  · rw [nativeText_of_mem hb]
    cases readStatement sql.toList <;> simp [hb, eq_comm]
  · rw [nativeText_of_not_mem hb]
    simp [hb]

end Reading

end EscapeClause
