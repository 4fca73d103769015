import EscapeClause.Proofs.Literal
import EscapeClause.Proofs.Segment
import Mathlib.Order.Bounds.Basic

/-! Where a mark stands, counted in bytes. The bytes of a longer character are none of those
that characters of one byte have, so a mark of such characters stands at a byte position only
where the text splits. Main statements: `splitAfter` splits behind the first place of a mark,
and the rest of a line ends at the first line end. -/

namespace EscapeClause.Text

section Bytes

variable {c : Char} {b : UInt8} {cs ds : List Char} {p : Nat}

theorem bytes_injective : Function.Injective bytes := by
  intro cs ds h
  rw [← @String.toList_ofList cs, ← @String.toList_ofList ds, ← toList_toUTF8, ← toList_toUTF8]
    at h
  have hs := String.toByteArray_inj.1 (ByteArray.ext (Array.toList_inj.1 h))
  exact String.ofList_injective hs

theorem le_of_mem_utf8EncodeChar (hc : c.utf8Size ≠ 1) :
    ∀ b ∈ String.utf8EncodeChar c, 128 ≤ b.toNat := by
  have hv : ¬ c.val.toNat ≤ 127 := mt Char.utf8Size_eq_one_iff.2 hc
  unfold String.utf8EncodeChar
  dsimp only
  rw [if_neg hv]
  split_ifs
  all_goals
    simp only [List.forall_mem_cons, UInt8.toNat_ofNat', List.not_mem_nil, false_imp_iff,
      implies_true, and_true]
    omega

theorem exists_byte (hc : c.utf8Size = 1) : ∃ b < 128, String.utf8EncodeChar c = [b] := by
  refine ⟨c.val.toUInt8, ?_, String.utf8EncodeChar_eq_singleton hc⟩
  have hv := UInt32.le_iff_toNat_le.1 (Char.utf8Size_eq_one_iff.1 hc)
  rw [UInt8.lt_iff_toNat_lt, UInt32.toNat_toUInt8]
  exact Nat.lt_of_le_of_lt (Nat.mod_le _ _) (Nat.lt_succ_of_le hv)

/-- A byte below 128 is the whole of its character. -/
theorem exists_of_getElem?_bytes (h : (bytes cs)[p]? = some b) (hb : b < 128) :
    ∃ before c after, cs = before ++ c :: after ∧ p = byteLength before ∧ c.utf8Size = 1 ∧
      String.utf8EncodeChar c = [b] := by
  induction cs generalizing p with
  | nil => cases h
  | cons c cs ih =>
    rw [bytes, List.flatMap_cons] at h
    by_cases hp : p < (String.utf8EncodeChar c).length
    · rw [List.getElem?_append_left hp] at h
      have hmem := List.mem_of_getElem? h
      by_cases hc : c.utf8Size = 1
      · have hbyte := String.utf8EncodeChar_eq_singleton hc
        rw [hbyte] at hmem
        rw [String.length_utf8EncodeChar, hc] at hp
        rw [← List.mem_singleton.1 hmem] at hbyte
        exact ⟨[], c, cs, rfl, Nat.lt_one_iff.1 hp, hc, hbyte⟩
      · have hle := le_of_mem_utf8EncodeChar hc b hmem
        exact absurd (UInt8.lt_iff_toNat_lt.1 hb) (Nat.not_lt.2 hle)
    · rw [List.getElem?_append_right (Nat.le_of_not_lt hp)] at h
      obtain ⟨before, d, after, rfl, hq, hd⟩ := ih h
      rw [String.length_utf8EncodeChar] at hp hq
      exact ⟨c :: before, d, after, rfl, by rw [byteLength_cons]; omega, hd⟩

end Bytes

/-- At byte `p` of the text stand the bytes of the mark. -/
def OccursAt (mark cs : List Char) (p : Nat) : Prop := bytes mark <+: (bytes cs).drop p

instance (mark cs : List Char) (p : Nat) : Decidable (OccursAt mark cs p) :=
  inferInstanceAs (Decidable (bytes mark <+: (bytes cs).drop p))

section Marks

variable {mark cs front body : List Char} {p : Nat} (hm : ∀ c ∈ mark, c.utf8Size = 1)

theorem drop_bytes_append (before after : List Char) :
    (bytes (before ++ after)).drop (byteLength before) = bytes after := by
  rw [bytes_append, List.drop_left' (length_bytes before)]

include hm

theorem prefix_of_bytes_prefix (h : bytes mark <+: bytes cs) : mark <+: cs := by
  induction mark generalizing cs with
  | nil => exact List.nil_prefix
  | cons m mark ih =>
    obtain ⟨b, hb, hbyte⟩ := exists_byte (hm m List.mem_cons_self)
    rw [bytes, List.flatMap_cons, hbyte] at h
    have hhead : (bytes cs)[0]? = some b := by
      obtain ⟨rest, hrest⟩ := h
      rw [← hrest]
      rfl
    obtain ⟨before, c, after, rfl, hzero, hc, hcbyte⟩ := exists_of_getElem?_bytes hhead hb
    rw [byteLength_eq_zero_iff.1 hzero.symm, List.nil_append] at h ⊢
    obtain rfl : m = c := List.singleton_inj.1 (bytes_injective (by simp [bytes, hbyte, hcbyte]))
    rw [bytes, List.flatMap_cons, hbyte] at h
    exact List.cons_prefix_cons.2 ⟨rfl, ih (fun d hd => hm d (List.mem_cons_of_mem m hd))
      ((List.prefix_append_right_inj [b]).1 h)⟩

/-- A mark of characters of one byte stands where the text splits in front of it. -/
theorem occursAt_iff (hne : mark ≠ []) :
    OccursAt mark cs p ↔
      ∃ before after, cs = before ++ (mark ++ after) ∧ p = byteLength before := by
  constructor
  · intro h
    obtain ⟨m, tail, rfl⟩ := List.exists_cons_of_ne_nil hne
    obtain ⟨b, hb, hbyte⟩ := exists_byte (hm m List.mem_cons_self)
    have hhead : (bytes cs)[p]? = some b := by
      obtain ⟨rest, hrest⟩ := h
      rw [← Nat.add_zero p, ← List.getElem?_drop, ← hrest, bytes, List.flatMap_cons, hbyte]
      rfl
    obtain ⟨before, c, after, rfl, rfl, -, -⟩ := exists_of_getElem?_bytes hhead hb
    rw [OccursAt, drop_bytes_append] at h
    obtain ⟨rest, hrest⟩ := prefix_of_bytes_prefix hm h
    exact ⟨before, rest, by rw [← hrest], rfl⟩
  · rintro ⟨before, after, rfl, rfl⟩
    rw [OccursAt, drop_bytes_append, bytes_append]
    exact List.prefix_append _ _

end Marks

section Occurrence

variable {mark cs : List Char} {p : Nat}

theorem occursAt_singleton_iff {c : Char} {b : UInt8} (hb : String.utf8EncodeChar c = [b]) :
    OccursAt [c] cs p ↔ (bytes cs)[p]? = some b := by
  rw [OccursAt, bytes, List.flatMap_singleton, hb, List.singleton_prefix_iff_head?_eq_some,
    List.head?_drop]

theorem le_byteLength_of_occursAt (h : OccursAt mark cs p)
    (hm : ∀ c ∈ mark, c.utf8Size = 1) (hne : mark ≠ []) : p + mark.length ≤ byteLength cs := by
  have hle := h.length_le
  have hpos := List.length_pos_iff.2 hne
  rw [List.length_drop, length_bytes, length_bytes, byteLength_eq_length hm] at hle
  omega

theorem isBoundary_of_occursAt (h : OccursAt mark cs p)
    (hm : ∀ c ∈ mark, c.utf8Size = 1) (hne : mark ≠ []) :
    IsBoundary cs p ∧ IsBoundary cs (p + mark.length) := by
  obtain ⟨before, after, rfl, rfl⟩ := (occursAt_iff hm hne).1 h
  refine ⟨⟨before, _, rfl, rfl⟩, before ++ mark, after, (List.append_assoc ..).symm, ?_⟩
  rw [byteLength_append, byteLength_eq_length hm]

end Occurrence

/-- The byte positions from `start` on at which the mark stands. -/
def places (mark cs : List Char) (start : Nat) : Set Nat := {q | start ≤ q ∧ OccursAt mark cs q}

section Places

variable {mark cs front body inner rest : List Char}

theorem exists_of_splitAfter (h : splitAfter mark body = some (inner, rest)) :
    ∃ xs, inner = xs ++ mark ∧ body = xs ++ (mark ++ rest) := by
  obtain ⟨xs, rfl⟩ := suffix_of_splitAfter h
  exact ⟨xs, rfl, by rw [append_of_splitAfter h, List.append_assoc]⟩

/-- No mark begins before the one that `splitAfter` finds. -/
theorem byteLength_le_of_splitAfter {xs ys zs : List Char}
    (h : splitAfter mark cs = some (xs ++ mark, rest)) (hs : cs = ys ++ (mark ++ zs)) :
    byteLength xs ≤ byteLength ys := by
  induction cs generalizing xs ys with
  | nil =>
    obtain ⟨xs', hxs, hcs⟩ := exists_of_splitAfter h
    rw [← List.append_cancel_right hxs] at hcs
    rw [(List.append_eq_nil_iff.1 hcs.symm).1]
    exact Nat.zero_le _
  | cons c cs ih =>
    rw [splitAfter] at h
    split at h
    · have hxs : mark = xs ++ mark := congrArg Prod.fst (Option.some.inj h)
      rw [List.self_eq_append_left.1 hxs]
      exact Nat.zero_le _
    · next hno =>
      obtain ⟨⟨inner, rest'⟩, hr, he⟩ := Option.map_eq_some_iff.1 h
      obtain ⟨xs', rfl⟩ := suffix_of_splitAfter hr
      obtain ⟨hxs, rfl⟩ := Prod.mk.inj he
      have hxs : xs = c :: xs' := List.append_cancel_right (hxs.symm.trans rfl)
      cases ys with
      | nil => exact absurd (List.prefix_append mark zs) (by rwa [hs] at hno)
      | cons d ys =>
        obtain ⟨rfl, hcs⟩ := List.cons.inj hs
        rw [hxs, byteLength_cons, byteLength_cons]
        exact Nat.add_le_add_left (ih hr hcs) _

variable (hm : ∀ c ∈ mark, c.utf8Size = 1) (hne : mark ≠ [])

include hm hne

theorem mem_places_iff {q : Nat} :
    q ∈ places mark (front ++ body) (byteLength front) ↔
      ∃ xs ys, body = xs ++ (mark ++ ys) ∧ q = byteLength (front ++ xs) := by
  rw [places, Set.mem_ofPred_eq, occursAt_iff hm hne]
  constructor
  · rintro ⟨hle, before, after, hs, rfl⟩
    rcases List.append_eq_append_iff.1 hs with ⟨xs, rfl, hbody⟩ | ⟨xs, rfl, hafter⟩
    · exact ⟨xs, after, hbody, rfl⟩
    · rw [byteLength_append] at hle
      have hnil : xs = [] := byteLength_eq_zero_iff.1 (by omega)
      subst hnil
      exact ⟨[], after, by simpa using hafter.symm, by rw [List.append_nil, List.append_nil]⟩
  · rintro ⟨xs, ys, rfl, rfl⟩
    exact ⟨by rw [byteLength_append]; omega, front ++ xs, ys, by rw [List.append_assoc], rfl⟩

theorem isLeast_places (h : splitAfter mark body = some (inner, rest)) :
    ∃ xs, inner = xs ++ mark ∧
      IsLeast (places mark (front ++ body) (byteLength front)) (byteLength (front ++ xs)) := by
  obtain ⟨xs, rfl, hbody⟩ := exists_of_splitAfter h
  refine ⟨xs, rfl, (mem_places_iff hm hne).2 ⟨xs, rest, hbody, rfl⟩, ?_⟩
  rintro q hq
  obtain ⟨ys, zs, hs, rfl⟩ := (mem_places_iff hm hne).1 hq
  rw [byteLength_append, byteLength_append]
  exact Nat.add_le_add_left (byteLength_le_of_splitAfter h hs) _

theorem places_eq_empty_iff :
    places mark (front ++ body) (byteLength front) = ∅ ↔ splitAfter mark body = none := by
  rw [splitAfter_eq_none_iff, Set.eq_empty_iff_forall_notMem]
  constructor
  · rintro h ⟨xs, ys, hs⟩
    exact h _ ((mem_places_iff hm hne).2 ⟨xs, ys, by rw [← hs, List.append_assoc], rfl⟩)
  · intro h q hq
    obtain ⟨xs, ys, hs, -⟩ := (mem_places_iff hm hne).1 hq
    exact h ⟨xs, ys, by rw [hs, List.append_assoc]⟩

end Places

/-- The byte positions from `start` on at which a line ends. The last line ends with the text. -/
def lineEnds (cs : List Char) (start : Nat) : Set Nat :=
  {q | start ≤ q ∧ (OccursAt ['\n'] cs q ∨ OccursAt ['\r'] cs q ∨ q = byteLength cs)}

section Lines

variable {front body cs : List Char} {start q : Nat}

theorem mem_lineEnds_iff_getElem? :
    q ∈ lineEnds cs start ↔ start ≤ q ∧
      ((∃ b, (bytes cs)[q]? = some b ∧ (b == 0x0A || b == 0x0D) = true) ∨
        q = (bytes cs).length) := by
  have hfeed : OccursAt ['\n'] cs q ↔ (bytes cs)[q]? = some 0x0A :=
    occursAt_singleton_iff (by decide)
  have hreturn : OccursAt ['\r'] cs q ↔ (bytes cs)[q]? = some 0x0D :=
    occursAt_singleton_iff (by decide)
  rw [lineEnds, Set.mem_ofPred_eq, hfeed, hreturn, length_bytes, ← or_assoc]
  simp only [Bool.or_eq_true, beq_iff_eq, and_or_left, exists_or, exists_eq_right]

theorem isBoundary_of_mem_lineEnds (h : q ∈ lineEnds cs start) :
    q ≤ byteLength cs ∧ IsBoundary cs q := by
  have hmark {c : Char} (hc : c.utf8Size = 1) (h : OccursAt [c] cs q) :
      q ≤ byteLength cs ∧ IsBoundary cs q := by
    have hm : ∀ d ∈ [c], d.utf8Size = 1 := List.forall_mem_singleton.2 hc
    have hle := le_byteLength_of_occursAt h hm (List.cons_ne_nil c [])
    exact ⟨(Nat.le_add_right _ _).trans hle,
      (isBoundary_of_occursAt h hm (List.cons_ne_nil c [])).1⟩
  obtain ⟨-, h | h | rfl⟩ := h
  · exact hmark (by decide) h
  · exact hmark (by decide) h
  · exact ⟨Nat.le_refl _, cs, [], (List.append_nil cs).symm, rfl⟩

theorem mem_lineEnds_iff {q : Nat} :
    q ∈ lineEnds (front ++ body) (byteLength front) ↔
      ∃ xs ys, body = xs ++ ys ∧ (∀ c ∈ ys.head?, isLineEnd c = true) ∧
        q = byteLength (front ++ xs) := by
  have hplaces (c : Char) (hc : c.utf8Size = 1) :=
    @mem_places_iff [c] front body (List.forall_mem_singleton.2 hc) (List.cons_ne_nil c []) q
  have hfeed := hplaces '\n' (by decide)
  have hreturn := hplaces '\r' (by decide)
  constructor
  · rintro ⟨hle, h | h | rfl⟩
    · obtain ⟨xs, ys, hbody, hq⟩ := hfeed.1 ⟨hle, h⟩
      exact ⟨xs, '\n' :: ys, hbody, by rintro c ⟨⟩; rfl, hq⟩
    · obtain ⟨xs, ys, hbody, hq⟩ := hreturn.1 ⟨hle, h⟩
      exact ⟨xs, '\r' :: ys, hbody, by rintro c ⟨⟩; rfl, hq⟩
    · exact ⟨body, [], (List.append_nil body).symm, by rintro c ⟨⟩, rfl⟩
  · rintro ⟨xs, ys, hbody, hys, hq⟩
    cases ys with
    | nil =>
      rw [List.append_nil] at hbody
      rw [hq, hbody]
      exact ⟨by rw [byteLength_append]; omega, .inr (.inr rfl)⟩
    | cons c ys =>
      have hc := hys c rfl
      rw [isLineEnd, Bool.or_eq_true, beq_iff_eq, beq_iff_eq] at hc
      rcases hc with rfl | rfl
      · obtain ⟨hle, h⟩ := hfeed.2 ⟨xs, ys, hbody, hq⟩
        exact ⟨hle, .inl h⟩
      · obtain ⟨hle, h⟩ := hreturn.2 ⟨xs, ys, hbody, hq⟩
        exact ⟨hle, .inr (.inl h)⟩

theorem byteLength_lineRest_le {xs ys : List Char} (hys : ∀ c ∈ ys.head?, isLineEnd c = true) :
    byteLength (lineRest (xs ++ ys)) ≤ byteLength xs := by
  induction xs with
  | nil =>
    cases ys with
    | nil => exact Nat.le_refl 0
    | cons c ys => simp [lineRest, hys c rfl]
  | cons x xs ih =>
    rw [lineRest] at ih ⊢
    rw [List.cons_append, List.takeWhile_cons]
    split
    · exact Nat.add_le_add_left ih _
    · exact Nat.zero_le _

theorem isLeast_lineEnds :
    IsLeast (lineEnds (front ++ body) (byteLength front))
      (byteLength (front ++ lineRest body)) := by
  constructor
  · exact mem_lineEnds_iff.2 ⟨lineRest body, dropLine body, (lineRest_append_dropLine body).symm,
      fun c => isLineEnd_of_head?_dropLine, rfl⟩
  · intro q hq
    obtain ⟨xs, ys, rfl, hys, rfl⟩ := mem_lineEnds_iff.1 hq
    rw [byteLength_append, byteLength_append]
    exact Nat.add_le_add_left (byteLength_lineRest_le hys) _

end Lines

end EscapeClause.Text
