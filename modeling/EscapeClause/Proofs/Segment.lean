import EscapeClause.Clause.Item
import EscapeClause.Proofs.Text

/-! Blanking by segments. A text is cut into segments, some of which are blanked, one space
for each character. Where only characters of one byte are blanked, the output has the
same length and the same boundaries, and each byte is a space or the byte it was. -/

namespace EscapeClause

namespace Text

def bytes (cs : List Char) : List UInt8 := cs.flatMap String.utf8EncodeChar

@[simp] theorem bytes_append (cs ds : List Char) : bytes (cs ++ ds) = bytes cs ++ bytes ds :=
  List.flatMap_append

@[simp] theorem length_bytes (cs : List Char) : (bytes cs).length = byteLength cs := by
  induction cs with
  | nil => rfl
  | cons c cs ih =>
    rw [bytes, List.flatMap_cons, List.length_append, String.length_utf8EncodeChar,
      byteLength_cons, ← ih]
    rfl

theorem toList_toUTF8 (s : String) : s.toUTF8.data.toList = bytes s.toList := by
  rw [String.toUTF8_eq_toByteArray, ← String.utf8Encode_toList, List.utf8Encode, bytes]
  exact List.toList_data_toByteArray

theorem bytes_replicate_space (n : Nat) :
    bytes (List.replicate n ' ') = List.replicate n 0x20 := by
  induction n with
  | zero => rfl
  | succ n ih =>
    rw [List.replicate_succ, List.replicate_succ, ← ih]
    rfl

end Text

open Text

/-- A part of a text that is blanked or kept. -/
structure Segment where
  text : List Char
  blank : Bool
  deriving DecidableEq, Repr

namespace Segment

def output (s : Segment) : List Char :=
  if s.blank then List.replicate s.text.length ' ' else s.text

/-- Only characters of one byte are blanked. -/
def Narrow (s : Segment) : Prop := s.blank = true → ∀ c ∈ s.text, c.utf8Size = 1

theorem Narrow.kept (cs : List Char) : Narrow ⟨cs, false⟩ := by
  intro hb
  cases hb

theorem Narrow.mark {c : Char} (hc : c.utf8Size = 1) : Narrow ⟨[c], true⟩ :=
  fun _ => List.forall_mem_singleton.2 hc

theorem byteLength_output {s : Segment} (h : s.Narrow) :
    byteLength s.output = byteLength s.text := by
  rw [output]
  split
  · next hb => rw [byteLength_replicate_space, byteLength_eq_length (h hb)]
  · rfl

theorem isBoundary_output {s : Segment} (h : s.Narrow) {p : Nat} :
    IsBoundary s.output p ↔ IsBoundary s.text p := by
  rw [output]
  split
  · next hb =>
    have hspace : ∀ c ∈ List.replicate s.text.length ' ', c.utf8Size = 1 := by
      intro c hc
      rw [List.eq_of_mem_replicate hc]
      decide
    rw [isBoundary_of_utf8Size_eq_one hspace, isBoundary_of_utf8Size_eq_one (h hb),
      List.length_replicate]
  · rfl

/-- The byte position falls into a blanked segment. -/
def BlankAt : List Segment → Nat → Prop
  | [], _ => False
  | s :: ss, i =>
    s.blank = true ∧ i < byteLength s.text ∨
      byteLength s.text ≤ i ∧ BlankAt ss (i - byteLength s.text)

theorem blankAt_append_iff {ss ts : List Segment} {i : Nat} :
    BlankAt (ss ++ ts) i ↔ BlankAt ss i ∨
      byteLength (ss.flatMap text) ≤ i ∧ BlankAt ts (i - byteLength (ss.flatMap text)) := by
  induction ss generalizing i with
  | nil => simp [BlankAt]
  | cons s ss ih =>
    rw [List.cons_append, BlankAt, ih, BlankAt, List.flatMap_cons, byteLength_append,
      Nat.sub_add_eq]
    constructor
    · rintro (h | ⟨h₁, h | ⟨h₂, h⟩⟩)
      · exact .inl (.inl h)
      · exact .inl (.inr ⟨h₁, h⟩)
      · exact .inr ⟨by omega, h⟩
    · rintro ((h | h) | ⟨h₁, h⟩)
      · exact .inl h
      · exact .inr ⟨h.1, .inl h.2⟩
      · exact .inr ⟨by omega, .inr ⟨by omega, h⟩⟩

section Output

variable {ss : List Segment} (hn : ∀ s ∈ ss, s.Narrow)

include hn

theorem byteLength_flatMap_output :
    byteLength (ss.flatMap output) = byteLength (ss.flatMap text) := by
  induction ss with
  | nil => rfl
  | cons s ss ih =>
    rw [List.flatMap_cons, List.flatMap_cons, byteLength_append, byteLength_append,
      byteLength_output (hn s List.mem_cons_self),
      ih fun t ht => hn t (List.mem_cons_of_mem s ht)]

theorem isBoundary_flatMap_output {p : Nat} :
    IsBoundary (ss.flatMap output) p ↔ IsBoundary (ss.flatMap text) p := by
  induction ss generalizing p with
  | nil => exact Iff.rfl
  | cons s ss ih =>
    have hs := hn s List.mem_cons_self
    rw [List.flatMap_cons, List.flatMap_cons, isBoundary_append_iff, isBoundary_append_iff,
      byteLength_output hs, isBoundary_output hs,
      ih fun t ht => hn t (List.mem_cons_of_mem s ht)]

/-- Each byte of the output is a space if it is blanked and else the byte it was. -/
theorem getElem?_bytes_output (i : Nat) :
    (BlankAt ss i → (bytes (ss.flatMap output))[i]? = some 0x20) ∧
      (¬ BlankAt ss i → (bytes (ss.flatMap output))[i]? = (bytes (ss.flatMap text))[i]?) := by
  induction ss generalizing i with
  | nil => exact ⟨False.elim, fun _ => rfl⟩
  | cons s ss ih =>
    have hs := hn s List.mem_cons_self
    have ht := ih (fun t ht => hn t (List.mem_cons_of_mem s ht)) (i - byteLength s.text)
    rw [List.flatMap_cons, List.flatMap_cons, bytes_append, bytes_append]
    by_cases hi : i < byteLength s.text
    · have hi' : i < (bytes s.output).length := by rwa [length_bytes, byteLength_output hs]
      rw [List.getElem?_append_left hi', List.getElem?_append_left (by rwa [length_bytes]),
        output]
      constructor
      · rintro (⟨hb, -⟩ | ⟨h, -⟩)
        · rw [if_pos hb, bytes_replicate_space, List.getElem?_replicate_of_lt]
          rwa [← byteLength_eq_length (hs hb)]
        · omega
      · intro h
        have hb : ¬ s.blank = true := fun hb => h (.inl ⟨hb, hi⟩)
        rw [if_neg hb]
    · have hle : byteLength s.text ≤ i := Nat.le_of_not_lt hi
      have hblank : BlankAt (s :: ss) i ↔ BlankAt ss (i - byteLength s.text) := by
        rw [BlankAt]
        exact ⟨fun h => h.elim (fun h => absurd h.2 hi) And.right, fun h => .inr ⟨hle, h⟩⟩
      rw [List.getElem?_append_right (by rwa [length_bytes, byteLength_output hs]),
        List.getElem?_append_right (by rwa [length_bytes]), length_bytes, length_bytes,
        byteLength_output hs, hblank]
      exact ht

end Output

end Segment

end EscapeClause
