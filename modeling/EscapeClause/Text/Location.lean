/-! Places in a text counted in bytes. The bytes of a text are those of its UTF-8
form; a byte position is a boundary of characters, lies inside a character, or is
beyond the end. Main statement: `locate` finds a boundary exactly when the text
splits there. -/

namespace EscapeClause.Text

def byteLength : List Char → Nat
  | [] => 0
  | c :: cs => c.utf8Size + byteLength cs

@[simp] theorem byteLength_nil : byteLength [] = 0 := rfl

@[simp] theorem byteLength_cons (c : Char) (cs : List Char) :
    byteLength (c :: cs) = c.utf8Size + byteLength cs := rfl

@[simp] theorem byteLength_append (cs ds : List Char) :
    byteLength (cs ++ ds) = byteLength cs + byteLength ds := by
  induction cs with
  | nil => simp
  | cons c cs ih => simp [ih, Nat.add_assoc]

/-- Where a byte position falls. A boundary carries the text on its two sides. -/
inductive Location where
  | boundary (before after : List Char)
  | inside
  | beyond
  deriving DecidableEq, Repr

namespace Location

/-- The same place with one more character in front of the text. -/
def shift (c : Char) : Location → Location
  | boundary before after => boundary (c :: before) after
  | inside => inside
  | beyond => beyond

end Location

def locate : Nat → List Char → Location
  | 0, cs => .boundary [] cs
  | _ + 1, [] => .beyond
  | p + 1, c :: cs =>
    if p + 1 < c.utf8Size then .inside else (locate (p + 1 - c.utf8Size) cs).shift c

theorem locate_byteLength (before after : List Char) :
    locate (byteLength before) (before ++ after) = .boundary before after := by
  induction before with
  | nil => simp [locate]
  | cons c cs ih =>
    have hpos := c.utf8Size_pos
    obtain ⟨p, hp⟩ : ∃ p, c.utf8Size + byteLength cs = p + 1 :=
      ⟨c.utf8Size + byteLength cs - 1, by omega⟩
    have hc : p + 1 - c.utf8Size = byteLength cs := by omega
    rw [byteLength_cons, hp, List.cons_append, locate, hc, ih, if_neg (by omega)]
    rfl

theorem eq_of_locate_eq_boundary {p : Nat} {cs before after : List Char}
    (h : locate p cs = .boundary before after) : cs = before ++ after ∧ p = byteLength before := by
  induction cs generalizing p before with
  | nil =>
    cases p with
    | zero => cases h; simp
    | succ p => cases h
  | cons c cs ih =>
    cases p with
    | zero => cases h; simp
    | succ p =>
      rw [locate] at h
      split at h
      · cases h
      · next hp =>
        cases hl : locate (p + 1 - c.utf8Size) cs with
        | boundary b a =>
          rw [hl] at h
          cases h
          obtain ⟨rfl, hb⟩ := ih hl
          exact ⟨rfl, by simp only [byteLength_cons]; omega⟩
        | inside => rw [hl] at h; cases h
        | beyond => rw [hl] at h; cases h

theorem locate_eq_boundary_iff {p : Nat} {cs before after : List Char} :
    locate p cs = .boundary before after ↔ cs = before ++ after ∧ p = byteLength before :=
  ⟨eq_of_locate_eq_boundary, fun ⟨h, hp⟩ => by rw [h, hp, locate_byteLength]⟩

theorem locate_eq_beyond_iff {p : Nat} {cs : List Char} :
    locate p cs = .beyond ↔ byteLength cs < p := by
  induction cs generalizing p with
  | nil => cases p <;> simp [locate]
  | cons c cs ih =>
    cases p with
    | zero => simp [locate]
    | succ p =>
      rw [locate, byteLength_cons]
      split
      · constructor
        · intro h; cases h
        · intro h; omega
      · have := ih (p := p + 1 - c.utf8Size)
        cases hl : locate (p + 1 - c.utf8Size) cs <;> simp_all [Location.shift] <;> omega

/-- How many characters stand before a byte position. A position that is no boundary
counts as itself. -/
def charsBefore (cs : List Char) (p : Nat) : Nat :=
  match locate p cs with
  | .boundary before _ => before.length
  | _ => p

theorem charsBefore_byteLength (before after : List Char) :
    charsBefore (before ++ after) (byteLength before) = before.length := by
  rw [charsBefore, locate_byteLength]

end EscapeClause.Text
