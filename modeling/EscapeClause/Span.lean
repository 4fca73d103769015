/-! Byte ranges of a text, for locating faults. -/

namespace EscapeClause

/-- The bytes from `start` up to `stop`. -/
structure Span where
  start : Nat
  stop : Nat
  deriving DecidableEq, Repr

namespace Span

/-- The empty range at a byte position. -/
def point (p : Nat) : Span := ⟨p, p⟩

instance : Inhabited Span := ⟨point 0⟩

def length (s : Span) : Nat := s.stop - s.start

def isEmpty (s : Span) : Bool := s.start == s.stop

@[simp] theorem isEmpty_point (p : Nat) : (point p).isEmpty = true := by simp [isEmpty, point]

@[simp] theorem length_point (p : Nat) : (point p).length = 0 := by simp [length, point]

end Span

end EscapeClause
