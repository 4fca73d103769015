import EscapeClause.Clause.Reading
import EscapeClause.Proofs.Opening

/-! Readings without a fault, item by item, to the end of a text or up to a rest of it. -/

namespace EscapeClause

/-- Characters that are items of their own make up the text again. -/
theorem Item.flatMap_plain {f : Item → List Char} (hf : ∀ c, f (.piece (.plain c)) = [c])
    (cs : List Char) : (cs.map (.piece ∘ .plain)).flatMap f = cs := by
  induction cs with
  | nil => rfl
  | cons c cs ih =>
    rw [List.map_cons, List.flatMap_cons, ih, Function.comp_apply, hf]
    rfl

namespace Reading

/-- `Complete prev cs is`: behind `prev`, the items `is` make up the text `cs`. -/
inductive Complete : Option Char → List Char → List Item → Prop where
  | nil (prev : Option Char) : Complete prev [] []
  | cons {prev : Option Char} {c : Char} {cs rest : List Char} {i : Item} {is : List Item}
      (hi : Item.read prev c cs = .ok (i, rest))
      (hr : Complete i.source.getLast? rest is) : Complete prev (c :: cs) (i :: is)

theorem complete_iff {prev : Option Char} {cs : List Char} {is : List Item} :
    Complete prev cs is ↔ read prev cs = ⟨is, none⟩ := by
  constructor
  · intro h
    induction h with
    | nil prev => exact read_nil prev
    | cons hi _ ih =>
      rw [read_of_ok hi, ih]
      rfl
  · intro h
    fun_induction read prev cs generalizing is with
    | case1 prev => cases h; exact .nil prev
    | case2 => cases h
    | case3 prev c cs i rest hi _ ih =>
      obtain ⟨js, fault, hr⟩ : ∃ js fault, read i.source.getLast? rest = ⟨js, fault⟩ :=
        ⟨_, _, rfl⟩
      rw [hr, cons] at h
      cases fault with
      | some f => cases h
      | none =>
        cases h
        exact .cons hi (ih hr)

theorem Complete.flatMap_source {prev : Option Char} {cs : List Char} {is : List Item}
    (h : Complete prev cs is) : is.flatMap Item.source = cs := by
  induction h with
  | nil => rfl
  | cons hi _ ih => rw [List.flatMap_cons, ih, ← Item.append_of_read hi]

theorem getLast?_append_or {xs : List Char} (hx : xs ≠ []) (ys : List Char) (prev : Option Char) :
    (xs ++ ys).getLast?.or prev = ys.getLast?.or xs.getLast? := by
  rw [List.getLast?_append]
  cases hl : xs.getLast? with
  | none => exact absurd (List.getLast?_eq_none_iff.1 hl) hx
  | some x => cases ys.getLast? <;> rfl

/-- An item of a reading was read at its place. -/
theorem Complete.read_at {prev : Option Char} {cs : List Char} {is₁ is₂ : List Item} {i : Item}
    (h : Complete prev cs (is₁ ++ i :: is₂)) :
    ∃ c tail, c :: tail = i.source ++ is₂.flatMap Item.source ∧
      Item.Read ((is₁.flatMap Item.source).getLast?.or prev) c tail i
        (is₂.flatMap Item.source) := by
  induction is₁ generalizing prev cs with
  | nil =>
    cases h with
    | @cons _ c tail rest _ _ hi hr =>
      rw [hr.flatMap_source]
      exact ⟨c, tail, Item.append_of_read hi, Item.read_eq_ok_iff.1 hi⟩
  | cons j is₁ ih =>
    cases h with
    | cons hj hr =>
      obtain ⟨c, tail, hcs, hi⟩ := ih hr
      refine ⟨c, tail, hcs, ?_⟩
      rwa [List.flatMap_cons, getLast?_append_or (Item.source_ne_nil_of_read hj)]

/-- `Passes prev cs is rest`: behind `prev`, the items `is` are read from `cs` one after the
other, and `rest` is left. -/
inductive Passes : Option Char → List Char → List Item → List Char → Prop where
  | nil (prev : Option Char) (rest : List Char) : Passes prev rest [] rest
  | cons {prev : Option Char} {c : Char} {cs mid rest : List Char} {i : Item} {is : List Item}
      (hi : Item.read prev c cs = .ok (i, mid)) (hr : Passes i.source.getLast? mid is rest) :
      Passes prev (c :: cs) (i :: is) rest

variable {prev : Option Char} {cs rest : List Char} {is : List Item}

theorem complete_iff_passes : Complete prev cs is ↔ Passes prev cs is [] := by
  constructor
  · intro h
    induction h with
    | nil prev => exact .nil prev []
    | cons hi _ ih => exact .cons hi ih
  · intro h
    generalize hrest : ([] : List Char) = rest at h
    induction h with
    | nil prev => subst hrest; exact .nil prev
    | cons hi _ ih => exact .cons hi (ih hrest)

namespace Passes

theorem eq_append (h : Passes prev cs is rest) : cs = is.flatMap Item.source ++ rest := by
  induction h with
  | nil => rfl
  | cons hi _ ih => rw [Item.append_of_read hi, ih, List.flatMap_cons, List.append_assoc]

theorem append {mid : List Char} {js : List Item} (h : Passes prev cs is mid)
    (h' : Passes ((is.flatMap Item.source).getLast?.or prev) mid js rest) :
    Passes prev cs (is ++ js) rest := by
  induction h with
  | nil => exact h'
  | cons hi _ ih =>
    rw [List.flatMap_cons, getLast?_append_or (Item.source_ne_nil_of_read hi)] at h'
    exact .cons hi (ih h')

/-- Items that have been read are the first of all items of the text. -/
theorem exists_append {js : List Item} (h : Passes prev cs is rest) (hc : Complete prev cs js) :
    ∃ prev' ks, js = is ++ ks ∧ Complete prev' rest ks := by
  induction h generalizing js with
  | nil prev rest => exact ⟨prev, js, rfl, hc⟩
  | cons hi _ ih =>
    cases hc with
    | cons hi' hr =>
      rw [hi] at hi'
      cases hi'
      obtain ⟨prev', ks, rfl, hks⟩ := ih hr
      exact ⟨prev', ks, rfl, hks⟩

/-- Inert characters are passed over one by one. -/
theorem inert {xs : List Char} (hx : ∀ c ∈ xs, Inert c) (prev : Option Char) (rest : List Char) :
    Passes prev (xs ++ rest) (xs.map (.piece ∘ .plain)) rest := by
  induction xs generalizing prev with
  | nil => exact .nil prev rest
  | cons c xs ih =>
    have hc := hx c List.mem_cons_self
    obtain ⟨-, ho, hcl⟩ := inert_iff.1 hc
    exact .cons (Item.read_eq_ok_iff.2 (.piece ho hcl (Piece.read_of_inert hc _ _)))
      (ih (fun d hd => hx d (List.mem_cons_of_mem c hd)) _)

end Passes

/-- Inert characters in front of a text are items of their own. -/
theorem Complete.append_inert {xs : List Char} (hx : ∀ c ∈ xs, Inert c)
    (h : Complete (xs.getLast?.or prev) cs is) :
    Complete prev (xs ++ cs) (xs.map (.piece ∘ .plain) ++ is) := by
  refine complete_iff_passes.2 ((Passes.inert hx prev cs).append ?_)
  rw [Item.flatMap_plain fun _ => rfl]
  exact complete_iff_passes.1 h

end Reading

end EscapeClause
