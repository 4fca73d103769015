/-! Blank characters: those with the Unicode property White_Space, 25 code points
in ten ranges. Blanks separate words, and a dollar quote opens only after one. -/

namespace EscapeClause.Text

/-- The blank code points as closed ranges, ascending and apart. -/
def blankRanges : List (Nat × Nat) :=
  [(0x09, 0x0D), (0x20, 0x20), (0x85, 0x85), (0xA0, 0xA0), (0x1680, 0x1680),
    (0x2000, 0x200A), (0x2028, 0x2029), (0x202F, 0x202F), (0x205F, 0x205F), (0x3000, 0x3000)]

def isBlank (c : Char) : Bool :=
  blankRanges.any fun r => r.1 ≤ c.toNat && c.toNat ≤ r.2

/-- The first word: what stands before the first blank. -/
def word (cs : List Char) : List Char := cs.takeWhile fun c => !isBlank c

/-- The gap at the front: the blanks before the first word. -/
def gap (cs : List Char) : List Char := cs.takeWhile isBlank

def dropGap (cs : List Char) : List Char := cs.dropWhile isBlank

@[simp] theorem gap_append_dropGap (cs : List Char) : gap cs ++ dropGap cs = cs :=
  List.takeWhile_append_dropWhile

end EscapeClause.Text
