import EscapeClause.Clause.Reading

/-! The nesting of clauses: how many are open behind each item. The items of a statement
are accepted when no closing comes without an open clause and none stays open. The
fault that is met first in the text counts. -/

namespace EscapeClause

namespace Item

/-- How many clauses are open behind the item when `level` are open before it. -/
def levelBehind? (level : Nat) : Item → Option Nat
  | opening .. => some (level + 1)
  | closing => if level = 0 then none else some (level - 1)
  | _ => some level

end Item

namespace Nesting

/-- How many clauses are open behind the items. -/
def levelBehind (level : Nat) : List Item → Except Fault Nat
  | [] => .ok level
  | i :: is =>
    match i.levelBehind? level with
    | none => .error ⟨.unbalancedClosing, []⟩
    | some level =>
      match levelBehind level is with
      | .ok level => .ok level
      | .error f => .error (f.behind i.source)

end Nesting

/-- The items of a statement, or its first fault. -/
def readStatement (cs : List Char) : Except Fault (List Item) :=
  let r := Reading.read none cs
  match Nesting.levelBehind 0 r.items with
  | .error f => .error f
  | .ok level =>
    match r.fault? with
    | some f => .error f
    | none => if level = 0 then .ok r.items else .error ⟨Item.unterminatedClause, cs⟩

theorem readStatement_eq_ok_iff {cs : List Char} {is : List Item} :
    readStatement cs = .ok is ↔
      Reading.read none cs = ⟨is, none⟩ ∧ Nesting.levelBehind 0 is = .ok 0 := by
  unfold readStatement
  generalize Reading.read none cs = r
  obtain ⟨items, fault⟩ := r
  dsimp only
  cases hl : Nesting.levelBehind 0 items with
  | error f =>
    simp only [reduceCtorEq, Reading.mk.injEq, false_iff, not_and]
    rintro ⟨rfl, -⟩
    simp [hl]
  | ok level =>
    cases fault with
    | some f => simp
    | none =>
      by_cases h0 : level = 0
      · subst h0
        simp only [↓reduceIte, Except.ok.injEq, Reading.mk.injEq, and_true]
        exact ⟨fun h => ⟨h, h ▸ hl⟩, fun h => h.1⟩
      · simp only [h0, ↓reduceIte, reduceCtorEq, Reading.mk.injEq, and_true, false_iff, not_and]
        rintro rfl
        simp [hl, h0]

end EscapeClause
