import EscapeClause.Clause.Nesting
import EscapeClause.Proofs.Reading

/-! Reading a text while clauses are open. The items of a text do not depend on how many
those are, so clauses that are open around a text stay open behind it. Main statements:
reading goes on behind items as the text that is left is read, and the character before
a text matters to it only as a blank or none. -/

namespace EscapeClause

namespace Item

/-- Whether the item opens a clause that has to be closed. -/
def opensClause : Item → Bool
  | opening .. => true
  | _ => false

theorem levelBehind?_add {i : Item} {level next : Nat} (h : i.levelBehind? level = some next)
    (n : Nat) : i.levelBehind? (level + n) = some (next + n) := by
  cases i with
  | piece p => cases h; rfl
  | native gap body => cases h; rfl
  | opening gap binding marker => cases h; exact congrArg some (Nat.add_right_comm level n 1)
  | closing =>
    rw [levelBehind?] at h ⊢
    split at h
    · cases h
    · next hl =>
      cases h
      rw [if_neg (by omega)]
      exact congrArg some (by omega)

theorem levelBehind?_of_opensClause {i : Item} {level : Nat} (h : i.opensClause = true) :
    i.levelBehind? level = some (level + 1) := by
  cases i with
  | opening gap binding marker => rfl
  | _ => cases h

/-- What a brace begins is a native literal just where a digit stands behind the gap. -/
theorem Read.opensClause_eq_false_iff {prev : Option Char} {cs rest : List Char} {i : Item}
    (h : Read prev '{' cs i rest) :
    i.opensClause = false ↔
      ∃ gap d after, cs = gap ++ d :: after ∧ Text.IsGap gap ∧ d.isDigit = true := by
  constructor
  · intro hi
    cases h with
    | piece ho => exact absurd rfl ho
    | native hg hd hb => exact ⟨_, _, _, rfl, hg, hd⟩
    | opening => cases hi
  · rintro ⟨gap, d, after, rfl, hg, hd⟩
    have hread := read_eq_ok_iff.2 h
    rw [read, if_pos rfl, readOpening_native hg hd] at hread
    split at hread
    · cases hread
    · cases hread
      rfl

end Item

namespace Nesting

theorem levelBehind_cons_eq_ok_iff {level final : Nat} {i : Item} {is : List Item} :
    levelBehind level (i :: is) = .ok final ↔
      ∃ next, i.levelBehind? level = some next ∧ levelBehind next is = .ok final := by
  rw [levelBehind]
  cases i.levelBehind? level with
  | none => simp
  | some next =>
    dsimp only
    cases hn : levelBehind next is <;> simp [hn]

theorem levelBehind_of_forall {level : Nat} {is : List Item}
    (h : ∀ i ∈ is, i.levelBehind? level = some level) : levelBehind level is = .ok level := by
  induction is with
  | nil => rfl
  | cons i is ih =>
    have hrest := ih fun j hj => h j (List.mem_cons_of_mem i hj)
    exact levelBehind_cons_eq_ok_iff.2 ⟨level, h i List.mem_cons_self, hrest⟩

theorem levelBehind_add {level final : Nat} {is : List Item}
    (h : levelBehind level is = .ok final) (n : Nat) :
    levelBehind (level + n) is = .ok (final + n) := by
  induction is generalizing level with
  | nil => cases h; rfl
  | cons i is ih =>
    obtain ⟨next, hi, hr⟩ := levelBehind_cons_eq_ok_iff.1 h
    exact levelBehind_cons_eq_ok_iff.2 ⟨next + n, Item.levelBehind?_add hi n, ih hr⟩

/-- A text that closes all its clauses does not end with the opening of one. -/
theorem not_opensClause_of_getLast? {level : Nat} {is : List Item} {i : Item}
    (h : levelBehind level is = .ok 0) (hi : is.getLast? = some i) : i.opensClause = false := by
  induction is generalizing level with
  | nil => cases hi
  | cons j is ih =>
    obtain ⟨next, hj, hr⟩ := levelBehind_cons_eq_ok_iff.1 h
    cases is with
    | nil =>
      rw [List.getLast?_singleton] at hi
      cases hi
      cases hr
      cases ho : i.opensClause with
      | false => rfl
      | true =>
        rw [Item.levelBehind?_of_opensClause ho] at hj
        cases hj
    | cons k is => exact ih hr (by rwa [List.getLast?_cons_cons] at hi)

end Nesting

/-- What the text behind `prev` is read as while `level` clauses are open: items that close
all of them, or the first fault. -/
def readFrom (level : Nat) (prev : Option Char) (cs : List Char) : Except Fault (List Item) :=
  let r := Reading.read prev cs
  match Nesting.levelBehind level r.items with
  | .error f => .error f
  | .ok final =>
    match r.fault? with
    | some f => .error f
    | none => if final = 0 then .ok r.items else .error ⟨Item.unterminatedClause, cs⟩

theorem readStatement_eq (cs : List Char) : readStatement cs = readFrom 0 none cs := rfl

theorem flatMap_source_of_readStatement {cs : List Char} {is : List Item}
    (h : readStatement cs = .ok is) : is.flatMap Item.source = cs :=
  (Reading.complete_iff.2 (readStatement_eq_ok_iff.1 h).1).flatMap_source

/-- What comes of a text with items in front of what was read. -/
def prefixed (is : List Item) : Except Fault (List Item) → Except Fault (List Item)
  | .ok js => .ok (is ++ js)
  | .error f => .error (f.behind (is.flatMap Item.source))

theorem prefixed_nil (r : Except Fault (List Item)) : prefixed [] r = r := by
  cases r <;> rfl

theorem prefixed_prefixed (is js : List Item) (r : Except Fault (List Item)) :
    prefixed is (prefixed js r) = prefixed (is ++ js) r := by
  cases r with
  | ok ks => exact congrArg Except.ok (List.append_assoc is js ks).symm
  | error f => simp only [prefixed, Fault.behind_behind, List.flatMap_append]

section ReadFrom

variable {level : Nat} {prev : Option Char} {c : Char} {cs rest : List Char}

theorem readFrom_nil :
    readFrom level prev [] =
      if level = 0 then .ok [] else .error ⟨Item.unterminatedClause, []⟩ := by
  rw [readFrom, Reading.read_nil]
  rfl

theorem readFrom_of_error {f : Fault} (h : Item.read prev c cs = .error f) :
    readFrom level prev (c :: cs) = .error f := by
  rw [readFrom, Reading.read_of_error h]
  rfl

theorem readFrom_of_unbalanced {i : Item} (h : Item.read prev c cs = .ok (i, rest))
    (hl : i.levelBehind? level = none) :
    readFrom level prev (c :: cs) = .error ⟨.unbalancedClosing, []⟩ := by
  rw [readFrom, Reading.read_of_ok h]
  simp only [Reading.cons, Nesting.levelBehind, hl]

theorem readFrom_of_ok {next : Nat} {i : Item} (h : Item.read prev c cs = .ok (i, rest))
    (hl : i.levelBehind? level = some next) :
    readFrom level prev (c :: cs) = prefixed [i] (readFrom next i.source.getLast? rest) := by
  have hcs := Item.append_of_read h
  rw [readFrom, Reading.read_of_ok h, readFrom]
  generalize Reading.read i.source.getLast? rest = r
  obtain ⟨is, fault⟩ := r
  simp only [Reading.cons, Nesting.levelBehind, hl]
  have hone (f : Fault) : f.behind i.source = f.behind ([i].flatMap Item.source) := by
    rw [List.flatMap_singleton]
  cases Nesting.levelBehind next is with
  | error f => exact congrArg Except.error (hone f)
  | ok final =>
    cases fault with
    | some f => exact congrArg Except.error (hone f)
    | none =>
      by_cases h0 : final = 0
      · simp only [h0, Option.map_none, ↓reduceIte]
        rfl
      · simp only [h0, Option.map_none, ↓reduceIte, hcs, prefixed, ← hone]
        rfl

end ReadFrom

section Congruence

variable {prev prev' : Option Char} (h : prev'.all Text.isBlank = prev.all Text.isBlank)

include h

theorem Literal.opening?_congr (cs : List Char) : opening? prev' cs = opening? prev cs := by
  unfold opening?
  rw [h]

theorem Piece.read_congr (c : Char) (cs : List Char) : read prev' c cs = read prev c cs := by
  rw [read, read, Literal.skip, Literal.skip, Literal.opening?_congr h]

theorem Item.read_congr (c : Char) (cs : List Char) : read prev' c cs = read prev c cs := by
  rw [read, read, Piece.read_congr h]

/-- A text is read alike behind a blank, behind any other blank and at the start. -/
theorem readFrom_congr (level : Nat) (cs : List Char) :
    readFrom level prev' cs = readFrom level prev cs := by
  cases cs with
  | nil => rw [readFrom_nil, readFrom_nil]
  | cons c cs =>
    have hread := Item.read_congr h c cs
    cases hi : Item.read prev c cs with
    | error f =>
      rw [hi] at hread
      rw [readFrom_of_error hi, readFrom_of_error hread]
    | ok r =>
      obtain ⟨i, rest⟩ := r
      rw [hi] at hread
      cases hl : i.levelBehind? level with
      | none => rw [readFrom_of_unbalanced hi hl, readFrom_of_unbalanced hread hl]
      | some next => rw [readFrom_of_ok hi hl, readFrom_of_ok hread hl]

end Congruence

end EscapeClause
