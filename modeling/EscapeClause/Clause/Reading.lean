import EscapeClause.Clause.Item

/-! The reading of a statement: its items up to the end or up to the first place where
no item can be read. Which items there are does not depend on how deeply clauses
nest. Main statement: without a fault the sources of the items make up the text. -/

namespace EscapeClause

structure Reading where
  items : List Item
  fault? : Option Fault
  deriving DecidableEq, Repr

namespace Reading

/-- The same reading with an item in front. -/
def cons (i : Item) (r : Reading) : Reading :=
  ⟨i :: r.items, r.fault?.map (Fault.behind i.source)⟩

/-- Reads a text that stands behind `prev`. -/
def read (prev : Option Char) (cs : List Char) : Reading :=
  match cs with
  | [] => ⟨[], none⟩
  | c :: cs =>
    match h : Item.read prev c cs with
    | .error f => ⟨[], some f⟩
    | .ok (i, rest) =>
      have := Item.length_rest_lt_of_read h
      (read i.source.getLast? rest).cons i
termination_by cs.length
decreasing_by exact this

@[simp] theorem read_nil (prev : Option Char) : read prev [] = ⟨[], none⟩ := by rw [read]

theorem read_of_error {prev : Option Char} {c : Char} {cs : List Char} {f : Fault}
    (h : Item.read prev c cs = .error f) : read prev (c :: cs) = ⟨[], some f⟩ := by
  rw [read]
  split <;> simp_all

theorem read_of_ok {prev : Option Char} {c : Char} {cs rest : List Char} {i : Item}
    (h : Item.read prev c cs = .ok (i, rest)) :
    read prev (c :: cs) = (read i.source.getLast? rest).cons i := by
  rw [read]
  split <;> simp_all

theorem flatMap_source_read {prev : Option Char} {cs : List Char}
    (h : (read prev cs).fault? = none) : (read prev cs).items.flatMap Item.source = cs := by
  fun_induction read prev cs with
  | case1 => rfl
  | case2 => cases h
  | case3 prev c cs i rest hi _ ih =>
    rw [cons, List.flatMap_cons, ih (by simpa [cons] using h)]
    exact (Item.append_of_read hi).symm

end Reading

end EscapeClause
