import EscapeClause.Proofs.Rewriter
import EscapeClause.Proofs.Text.Occurrence

/-! Where a literal or comment ends, told by the bytes of the text. A literal ends behind the
first closing mark that follows its opening mark, and a line comment in front of the first
line end. Main statement: this is what `endPosition` answers for every byte position, with the
kind and the place of a literal without a closing mark in its error, and what a search over
the bytes finds, in which every cut of the text can be made. -/

namespace EscapeClause

open Text

/-- The text behind an opening mark splits behind the first closing mark, or it has none. -/
theorem Enclosed.splitAfter_closer (kind : Enclosed) {cs before body : List Char}
    (hs : cs = before ++ (kind.opener ++ body)) :
    splitAfter kind.closer body = none ∧
        places kind.closer cs (byteLength before + kind.opener.length) = ∅ ∨
      ∃ inner rest q, splitAfter kind.closer body = some (inner, rest) ∧
        IsLeast (places kind.closer cs (byteLength before + kind.opener.length)) q ∧
        q + kind.closer.length = byteLength (before ++ kind.opener) + byteLength inner := by
  rw [hs, ← List.append_assoc, ← byteLength_eq_length kind.utf8Size_of_mem_opener,
    ← byteLength_append]
  cases hsplit : splitAfter kind.closer body with
  | none =>
    exact .inl ⟨rfl,
      (places_eq_empty_iff kind.utf8Size_of_mem_closer kind.closer_ne_nil).2 hsplit⟩
  | some r =>
    obtain ⟨inner, rest⟩ := r
    obtain ⟨xs, rfl, hleast⟩ := @isLeast_places _ (before ++ kind.opener) _ _ _
      kind.utf8Size_of_mem_closer kind.closer_ne_nil hsplit
    refine .inr ⟨_, rest, _, rfl, hleast, ?_⟩
    rw [← byteLength_eq_length kind.utf8Size_of_mem_closer, byteLength_append _ xs,
      byteLength_append xs, Nat.add_assoc]

/-- `kind.Spelled opener closer what`: the two marks around an enclosed text, and what the text
is called where the second one is missing. -/
inductive Enclosed.Spelled : Enclosed → List Char → List Char → String → Prop where
  | stringLiteral : Spelled .stringLiteral ['\''] ['\''] "string literal"
  | quotedIdentifier : Spelled .quotedIdentifier ['"'] ['"'] "quoted identifier"
  | dollarQuoted : Spelled .dollarQuoted ['$', '$'] ['$', '$'] "dollar-quoted string"
  | blockComment : Spelled .blockComment ['/', '*'] ['*', '/'] "block comment"

theorem Enclosed.Spelled.eq {kind : Enclosed} {opener closer : List Char} {what : String}
    (h : kind.Spelled opener closer what) :
    opener = kind.opener ∧ closer = kind.closer ∧ what = kind.name := by
  cases h <;> exact ⟨rfl, rfl, rfl⟩

namespace Literal

/-- `o.OpensAt cs p`: at byte `p` of the text stands the mark of `o`, and it starts something. -/
structure Opening.OpensAt (o : Opening) (cs : List Char) (p : Nat) : Prop where
  occurs : OccursAt o.mark cs p
  starts : ∃ before after, cs = before ++ after ∧ p = byteLength before ∧
    o.Starts before.getLast?

/-- `Ends sql p a`: the literal or comment at byte `p` ends at the position `a`, or `a` is the
error that it is not closed. A byte where nothing starts is taken alone. -/
inductive Ends (sql : String) (p : Nat) : Except StatementError Nat → Prop where
  | closed {kind : Enclosed} {opener closer : List Char} {what : String} {q : Nat}
      (hk : kind.Spelled opener closer what) (ho : (Opening.enclosed kind).OpensAt sql.toList p)
      (hq : IsLeast (places closer sql.toList (p + opener.length)) q) :
      Ends sql p (.ok (q + closer.length))
  | unclosed {kind : Enclosed} {opener closer : List Char} {what : String}
      (hk : kind.Spelled opener closer what) (ho : (Opening.enclosed kind).OpensAt sql.toList p)
      (hq : places closer sql.toList (p + opener.length) = ∅) :
      Ends sql p (.error (.atByte (.unterminated what) sql p))
  | line {mark : List Char} {q : Nat} (ho : (Opening.lineComment mark).OpensAt sql.toList p)
      (hq : IsLeast (lineEnds sql.toList (p + mark.length)) q) : Ends sql p (.ok q)
  | single (hp : p < byteLength sql.toList) (ho : ∀ o : Opening, ¬ o.OpensAt sql.toList p) :
      Ends sql p (.ok (p + 1))
  | beyond (hp : byteLength sql.toList ≤ p) : Ends sql p (.ok p)

section Openings

variable {o : Opening} {cs : List Char} {p : Nat}

theorem Opening.Starts.utf8Size_mark {prev : Option Char} (h : o.Starts prev) :
    ∀ c ∈ o.mark, c.utf8Size = 1 := by
  rcases o with kind | mark
  · exact kind.utf8Size_of_mem_opener
  · rcases h with rfl | rfl <;> exact utf8Size_of_all (by decide)

theorem Opening.Starts.mark_ne_nil {prev : Option Char} (h : o.Starts prev) : o.mark ≠ [] := by
  rcases o with kind | mark
  · exact kind.opener_ne_nil
  · rcases h with rfl | rfl <;> exact List.cons_ne_nil _ _

theorem Opening.OpensAt.utf8Size_mark (h : o.OpensAt cs p) : ∀ c ∈ o.mark, c.utf8Size = 1 := by
  obtain ⟨_, _, _, _, hs⟩ := h.starts
  exact hs.utf8Size_mark

/-- What opens at a byte opens at the front of the text behind it. -/
theorem Opening.OpensAt.exists_opening? (h : o.OpensAt cs p) :
    ∃ before body, cs = before ++ (o.mark ++ body) ∧ p = byteLength before ∧
      opening? before.getLast? (o.mark ++ body) = some (o, body) := by
  obtain ⟨hocc, before, after, rfl, rfl, hs⟩ := h
  obtain ⟨before', body, hcs, hp⟩ := (occursAt_iff hs.utf8Size_mark hs.mark_ne_nil).1 hocc
  obtain ⟨rfl, rfl⟩ := append_inj_byteLength hcs hp
  exact ⟨before, body, rfl, rfl, opening?_eq_some_iff.2 ⟨rfl, hs⟩⟩

theorem opensAt_of_opening? {before body : List Char}
    (h : opening? before.getLast? (o.mark ++ body) = some (o, body)) :
    o.OpensAt (before ++ (o.mark ++ body)) (byteLength before) := by
  have hs := (opening?_eq_some_iff.1 h).2
  exact ⟨(occursAt_iff hs.utf8Size_mark hs.mark_ne_nil).2 ⟨before, body, rfl, rfl⟩, before, _, rfl,
    rfl, hs⟩

end Openings

section Answers

variable {sql : String} {o : Opening} {before body : List Char} {a : Except StatementError Nat}

/-- The answer at a byte where something opens is that of passing over it. -/
theorem endPosition_of_opening? (hs : sql.toList = before ++ (o.mark ++ body))
    (ho : opening? before.getLast? (o.mark ++ body) = some (o, body)) :
    endPosition sql (byteLength before) =
      match o.pass body with
      | .ok (passed, _) => .ok (byteLength before + byteLength passed)
      | .error kind => .error (.atByte kind.unterminated sql (byteLength before)) := by
  have hsql : sql = String.ofList (before ++ (o.mark ++ body)) := by
    rw [← hs, String.ofList_toList]
  obtain ⟨c, cs, hc⟩ := List.exists_cons_of_ne_nil (opening?_eq_some_iff.1 ho).2.mark_ne_nil
  rw [endPosition, hs, locate_byteLength]
  rw [hc, List.cons_append] at ho ⊢
  dsimp only
  rw [ho]
  cases hp : o.pass body with
  | ok r => simp only [hp]
  | error kind =>
    have he := Fault.error_eq_atByte ⟨kind.unterminated, before⟩ (o.mark ++ body)
    rw [← hsql] at he
    simp only [hp, he]

theorem endPosition_of_not_opensAt {p : Nat} (hp : p < byteLength sql.toList)
    (ho : ∀ o : Opening, ¬ o.OpensAt sql.toList p) : endPosition sql p = .ok (p + 1) := by
  rw [endPosition]
  cases hl : locate p sql.toList with
  | boundary before after =>
    obtain ⟨hs, rfl⟩ := eq_of_locate_eq_boundary hl
    cases after with
    | nil =>
      rw [hs, List.append_nil] at hp
      exact absurd hp (Nat.lt_irrefl _)
    | cons c after =>
      cases hopen : opening? before.getLast? (c :: after) with
      | none => simp only [hopen]
      | some r =>
        obtain ⟨o, body⟩ := r
        have hmark := append_of_opening? hopen
        rw [hmark] at hopen hs
        exact absurd (hs ▸ opensAt_of_opening? hopen) (ho o)
  | inside => rfl
  | beyond => exact absurd hp (Nat.lt_asymm (locate_eq_beyond_iff.1 hl))

theorem endPosition_of_le {p : Nat} (hp : byteLength sql.toList ≤ p) :
    endPosition sql p = .ok p := by
  rcases Nat.eq_or_lt_of_le hp with rfl | hlt
  · have hend := locate_byteLength sql.toList []
    rw [List.append_nil] at hend
    rw [endPosition, hend]
  · rw [endPosition, locate_eq_beyond_iff.2 hlt]

theorem Ends.endPosition_eq {p : Nat} (h : Ends sql p a) : endPosition sql p = a := by
  cases h with
  | @closed kind _ _ _ q hk ho hq =>
    obtain ⟨rfl, rfl, rfl⟩ := hk.eq
    obtain ⟨before, body, hs, rfl, hopen⟩ := ho.exists_opening?
    rcases kind.splitAfter_closer hs with ⟨-, hnone⟩ | ⟨inner, rest, q', hsplit, hleast, hend⟩
    · rw [hnone] at hq
      exact absurd hq.1 (Set.notMem_empty q)
    · simp only [endPosition_of_opening? hs hopen, Opening.pass, hsplit, hq.unique hleast, hend,
        byteLength_append, Nat.add_assoc]
  | @unclosed kind _ _ _ hk ho hq =>
    obtain ⟨rfl, rfl, rfl⟩ := hk.eq
    obtain ⟨before, body, hs, rfl, hopen⟩ := ho.exists_opening?
    rcases kind.splitAfter_closer hs with ⟨hnone, -⟩ | ⟨_, _, q', _, hleast, _⟩
    · simp only [endPosition_of_opening? hs hopen, Opening.pass, hnone, Enclosed.unterminated]
    · rw [hq] at hleast
      exact absurd hleast.1 (Set.notMem_empty q')
  | @line mark q ho hq =>
    have hmark := byteLength_eq_length ho.utf8Size_mark
    obtain ⟨before, body, hs, rfl, hopen⟩ := ho.exists_opening?
    rw [Opening.mark] at hmark hs
    rw [hs, ← List.append_assoc, ← hmark, ← byteLength_append] at hq
    simp only [endPosition_of_opening? hs hopen, Opening.pass, hq.unique isLeast_lineEnds,
      byteLength_append, Nat.add_assoc]
  | single hp ho => exact endPosition_of_not_opensAt hp ho
  | beyond hp => exact endPosition_of_le hp

end Answers

/-- Where in the text the mark ends that comes first from `start` on, if it comes at all.
The text is cut at `start`; there is no answer if it cannot be cut there. -/
def find? (mark cs : List Char) (start : Nat) : Option (Option Nat) :=
  (slice? cs start (byteLength cs)).map fun body =>
    (splitAfter mark body).map fun r => start + byteLength r.1

/-- The byte position of the first line end from `start` on, else the end of the text. -/
def lineStop (bs : List UInt8) (start : Nat) : Nat :=
  match (bs.drop start).findIdx? fun b => b == 0x0A || b == 0x0D with
  | some i => start + i
  | none => bs.length

/-- Whether a dollar quote opens at byte `p`. The text is cut there if it has two dollars. -/
def opensDollarQuote? (cs : List Char) (p : Nat) : Option Bool :=
  if OccursAt ['$', '$'] cs p then
    (slice? cs 0 p).map fun before => before.getLast?.all isBlank
  else some false

section Scan

variable (checked : Bool) (sql : String) (p : Nat)

/-- The end of a text between two marks, the first of which takes `opener` bytes. -/
def scanEnclosed? (opener : Nat) (closer : List Char) (what : String) :
    Option (Except StatementError Nat) :=
  (find? closer sql.toList (p + opener)).map fun found =>
    match found with
    | some q => .ok q
    | none => .error (.atByte (.unterminated what) sql p)

/-- The search for an end over the bytes of a text, with every cut of the text checked. The
position behind `p` is computed first, also at the end of the text: where sums are `checked`,
there is no answer if it is no word of 64 bits. -/
def scan? : Option (Except StatementError Nat) := do
  if checked ∧ UInt64.size ≤ p + 1 then failure
  else if OccursAt ['\''] sql.toList p then scanEnclosed? sql p 1 ['\''] "string literal"
  else if OccursAt ['"'] sql.toList p then scanEnclosed? sql p 1 ['"'] "quoted identifier"
  else if ← opensDollarQuote? sql.toList p then
    scanEnclosed? sql p 2 ['$', '$'] "dollar-quoted string"
  else if OccursAt ['/', '*'] sql.toList p then scanEnclosed? sql p 2 ['*', '/'] "block comment"
  else if OccursAt ['/', '/'] sql.toList p ∨ OccursAt ['-', '-'] sql.toList p then
    return .ok (lineStop (bytes sql.toList) (p + 2))
  else if p < byteLength sql.toList then return .ok (p + 1)
  else return .ok p

end Scan

section Scanned

variable {sql : String} {cs : List Char} {p : Nat}

theorem scanEnclosed?_ends {kind : Enclosed} {opener closer : List Char} {what : String}
    (hk : kind.Spelled opener closer what) (ho : (Opening.enclosed kind).OpensAt sql.toList p) :
    ∃ a, scanEnclosed? sql p opener.length closer what = some a ∧ Ends sql p a := by
  obtain ⟨rfl, rfl, rfl⟩ := hk.eq
  obtain ⟨before, body, hs, rfl, -⟩ := ho.exists_opening?
  have hcut : slice? sql.toList (byteLength before + kind.opener.length)
      (byteLength sql.toList) = some body := by
    rw [hs, Opening.mark, ← List.append_assoc, ← byteLength_eq_length kind.utf8Size_of_mem_opener,
      ← byteLength_append]
    exact slice?_end _ body
  rw [scanEnclosed?, find?, hcut, ← byteLength_eq_length kind.utf8Size_of_mem_opener,
    ← byteLength_append, Option.map_some, Option.map_some]
  rcases kind.splitAfter_closer hs with ⟨hnone, hempty⟩ | ⟨inner, rest, q, hsplit, hleast, hend⟩
  · exact ⟨_, by rw [hnone]; rfl, .unclosed hk ho hempty⟩
  · exact ⟨_, by rw [hsplit, Option.map_some, ← hend], .closed hk ho hleast⟩

theorem isLeast_lineStop {start : Nat} (h : start ≤ byteLength cs) :
    IsLeast (lineEnds cs start) (lineStop (bytes cs) start) := by
  rw [← length_bytes] at h
  unfold lineStop
  split
  · next i hi =>
    obtain ⟨hlt, hend, hmin⟩ := List.findIdx?_eq_some_iff_getElem.1 hi
    rw [List.getElem_drop] at hend
    rw [List.length_drop] at hlt
    refine ⟨mem_lineEnds_iff_getElem?.2 ⟨Nat.le_add_right start i, .inl ⟨_, ?_, hend⟩⟩, ?_⟩
    · exact List.getElem?_eq_getElem _
    · intro q hq
      obtain ⟨hle, hq⟩ := mem_lineEnds_iff_getElem?.1 hq
      -- a line end in front of the found byte would have been found
      by_contra! hbefore
      obtain ⟨j, rfl⟩ := Nat.exists_eq_add_of_le hle
      rcases hq with ⟨b, hb, hend'⟩ | hq
      · obtain ⟨hj, rfl⟩ := List.getElem?_eq_some_iff.1 hb
        have hno := hmin j (by omega)
        rw [List.getElem_drop] at hno
        exact hno hend'
      · omega
  · next hnone =>
    rw [List.findIdx?_eq_none_iff] at hnone
    refine ⟨mem_lineEnds_iff_getElem?.2 ⟨h, .inr rfl⟩, fun q hq => ?_⟩
    obtain ⟨hle, ⟨b, hb, hend⟩ | rfl⟩ := mem_lineEnds_iff_getElem?.1 hq
    · obtain ⟨j, rfl⟩ := Nat.exists_eq_add_of_le hle
      rw [← List.getElem?_drop] at hb
      exact absurd hend (Bool.eq_false_iff.1 (hnone b (List.mem_of_getElem? hb)))
    · exact Nat.le_refl _

theorem opensAt_of_occursAt {o : Opening} (ho : ∀ prev, o.Starts prev)
    (h : OccursAt o.mark cs p) : o.OpensAt cs p := by
  have hs := ho none
  obtain ⟨before, after, hcs, hp⟩ := (occursAt_iff hs.utf8Size_mark hs.mark_ne_nil).1 h
  exact ⟨h, before, _, hcs, hp, ho _⟩

/-- The text can be cut in front of two dollars. -/
theorem opensDollarQuote?_eq :
    ∃ b, opensDollarQuote? cs p = some b ∧
      (b = true ↔ (Opening.enclosed .dollarQuoted).OpensAt cs p) := by
  unfold opensDollarQuote?
  split
  · next hocc =>
    obtain ⟨before, after, rfl, rfl⟩ :=
      (occursAt_iff (utf8Size_of_all (by decide)) (List.cons_ne_nil _ _)).1 hocc
    have hcut := slice?_append [] before (['$', '$'] ++ after)
    rw [List.nil_append] at hcut
    rw [← byteLength_nil, hcut]
    refine ⟨_, rfl, fun hs => ⟨hocc, before, _, rfl, rfl, hs⟩, ?_⟩
    rintro ⟨-, before', after', hs, hp, hstarts⟩
    obtain ⟨rfl, -⟩ := append_inj_byteLength hs hp
    exact hstarts
  · next hocc => exact ⟨_, rfl, fun h => Bool.noConfusion h, fun h => absurd h.occurs hocc⟩

theorem lineStop_ends {mark : List Char} (hs : ∀ prev, (Opening.lineComment mark).Starts prev)
    (h : OccursAt mark sql.toList p) :
    Ends sql p (.ok (lineStop (bytes sql.toList) (p + mark.length))) := by
  have hle := le_byteLength_of_occursAt h (hs none).utf8Size_mark (hs none).mark_ne_nil
  exact .line (opensAt_of_occursAt hs h) (isLeast_lineStop hle)

/-- Every cut of the search can be made, and it finds the end. -/
theorem exists_scan?_eq {checked : Bool} (hp : ¬ (checked = true ∧ UInt64.size ≤ p + 1)) :
    ∃ a, scan? checked sql p = some a ∧ Ends sql p a := by
  obtain ⟨dollar, hdollar, hiff⟩ := @opensDollarQuote?_eq sql.toList p
  have henclosed {kind : Enclosed} (hs : ∀ prev, (Opening.enclosed kind).Starts prev)
      (h : OccursAt kind.opener sql.toList p) := opensAt_of_occursAt hs h
  rw [scan?, if_neg hp, hdollar]
  dsimp only [Option.bind_eq_bind, Option.bind_some]
  split_ifs with hquote hname hd hblock hline hp
  · exact scanEnclosed?_ends .stringLiteral (henclosed (fun _ => trivial) hquote)
  · exact scanEnclosed?_ends .quotedIdentifier (henclosed (fun _ => trivial) hname)
  · exact scanEnclosed?_ends .dollarQuoted (hiff.1 hd)
  · exact scanEnclosed?_ends .blockComment (henclosed (fun _ => trivial) hblock)
  · rcases hline with h | h
    · exact ⟨_, rfl, lineStop_ends (fun _ => .inl rfl) h⟩
    · exact ⟨_, rfl, lineStop_ends (fun _ => .inr rfl) h⟩
  · -- all marks have been looked for, so nothing starts here
    refine ⟨_, rfl, .single hp ?_⟩
    rintro (kind | mark) ho
    · cases kind with
      | stringLiteral => exact hquote ho.occurs
      | quotedIdentifier => exact hname ho.occurs
      | dollarQuoted => exact hd (hiff.2 ho)
      | blockComment => exact hblock ho.occurs
    · obtain ⟨_, _, _, _, rfl | rfl⟩ := ho.starts
      · exact hline (.inl ho.occurs)
      · exact hline (.inr ho.occurs)
  · exact ⟨_, rfl, .beyond (Nat.le_of_not_lt hp)⟩

end Scanned

section Found

variable {sql : String} {cs : List Char} {p q : Nat}

/-- At most one literal or comment opens at a byte. -/
theorem Opening.OpensAt.unique {o o' : Opening} (h : o.OpensAt cs p) (h' : o'.OpensAt cs p) :
    o = o' := by
  obtain ⟨before, body, hs, hp, hopen⟩ := h.exists_opening?
  obtain ⟨before', body', hs', hp', hopen'⟩ := h'.exists_opening?
  obtain ⟨rfl, htext⟩ := append_inj_byteLength (hs.symm.trans hs') (hp.symm.trans hp')
  rw [htext, hopen'] at hopen
  exact (congrArg Prod.fst (Option.some.inj hopen)).symm

theorem Opening.OpensAt.add_length_le {o : Opening} (h : o.OpensAt cs p) :
    p + o.mark.length ≤ byteLength cs ∧ 0 < o.mark.length := by
  obtain ⟨_, _, _, _, hs⟩ := h.starts
  exact ⟨le_byteLength_of_occursAt h.occurs hs.utf8Size_mark hs.mark_ne_nil,
    List.length_pos_iff.2 hs.mark_ne_nil⟩

theorem Ends.lt_and_le (h : Ends sql p (.ok q)) (hp : p < byteLength sql.toList) :
    p < q ∧ q ≤ byteLength sql.toList := by
  cases h with
  | @closed kind _ _ _ q hk ho hq =>
    obtain ⟨rfl, rfl, rfl⟩ := hk.eq
    have hpos := List.length_pos_iff.2 kind.closer_ne_nil
    have hle := le_byteLength_of_occursAt hq.1.2 kind.utf8Size_of_mem_closer kind.closer_ne_nil
    have hstart := hq.1.1
    exact ⟨by omega, hle⟩
  | @line mark q ho hq =>
    have hpos : 0 < mark.length := ho.add_length_le.2
    have hstart := hq.1.1
    exact ⟨by omega, (isBoundary_of_mem_lineEnds hq.1).1⟩
  | single hp ho => exact ⟨Nat.lt_succ_self p, hp⟩
  | beyond hle => exact absurd hp (Nat.not_lt.2 hle)

/-- Behind a byte that is a whole character the end splits the text. -/
theorem Ends.isBoundary {b : UInt8} (h : Ends sql p (.ok q))
    (hb : (bytes sql.toList)[p]? = some b) (hascii : b < 128) : IsBoundary sql.toList q := by
  obtain ⟨before, c, after, hs, rfl, hc, -⟩ := exists_of_getElem?_bytes hb hascii
  cases h with
  | @closed kind _ _ _ q hk ho hq =>
    obtain ⟨rfl, rfl, rfl⟩ := hk.eq
    exact (isBoundary_of_occursAt hq.1.2 kind.utf8Size_of_mem_closer kind.closer_ne_nil).2
  | line ho hq => exact (isBoundary_of_mem_lineEnds hq.1).2
  | single hp ho =>
    refine ⟨before ++ [c], after, by rw [hs, List.append_assoc]; rfl, ?_⟩
    rw [byteLength_append, byteLength_cons, byteLength_nil, hc]
  | beyond hle => exact ⟨before, c :: after, hs, rfl⟩

/-- No closing mark ends earlier. -/
theorem Ends.le_of_mem_places {kind : Enclosed} {opener closer : List Char} {what : String}
    (h : Ends sql p (.ok q)) (hk : kind.Spelled opener closer what)
    (ho : (Opening.enclosed kind).OpensAt sql.toList p) :
    ∀ r ∈ places closer sql.toList (p + opener.length), q ≤ r + closer.length := by
  cases h with
  | closed hk' ho' hq =>
    obtain ⟨⟩ := ho.unique ho'
    obtain ⟨rfl, rfl, rfl⟩ := hk.eq
    obtain ⟨rfl, rfl, rfl⟩ := hk'.eq
    exact fun r hr => Nat.add_le_add_right (hq.2 hr) _
  | line ho' hq => cases ho.unique ho'
  | single hp hno => exact absurd ho (hno _)
  | beyond hle =>
    have hlt := ho.add_length_le
    omega

theorem Ends.le_of_mem_lineEnds {mark : List Char} (h : Ends sql p (.ok q))
    (ho : (Opening.lineComment mark).OpensAt sql.toList p) :
    ∀ r ∈ lineEnds sql.toList (p + mark.length), q ≤ r := by
  cases h with
  | closed _ ho' _ => cases ho.unique ho'
  | line ho' hq =>
    obtain ⟨⟩ := ho.unique ho'
    exact fun r hr => hq.2 hr
  | single hp hno => exact absurd ho (hno _)
  | beyond hle =>
    have hlt := ho.add_length_le
    omega

/-- What is not closed is told with its name, at the place where it opens. -/
theorem Ends.error {e : StatementError} (h : Ends sql p (.error e)) :
    ∃ kind opener closer what before after, Enclosed.Spelled kind opener closer what ∧
      sql.toList = before ++ (opener ++ after) ∧ p = byteLength before ∧
      places closer sql.toList (p + opener.length) = ∅ ∧
      e.span? = some (Span.point p) ∧ e.offset? = some before.length ∧
      e.message = "Unterminated " ++ what ++ " at position " ++ toString before.length := by
  cases h with
  | @unclosed kind opener closer what hk ho hq =>
    obtain ⟨before, after, hs, hp, -⟩ := ho.exists_opening?
    have hoffset : charsBefore sql.toList p = before.length := by
      rw [hs, hp, charsBefore_byteLength]
    refine ⟨kind, opener, closer, what, before, after, hk, ?_, hp, hq, rfl, ?_, ?_⟩
    · rw [hk.eq.1]
      exact hs
    · rw [StatementError.atByte, StatementError.offset?, hoffset]
    · exact congrArg (fun n => "Unterminated " ++ what ++ " at position " ++ toString n) hoffset

theorem endPosition_eq_iff_ends {a : Except StatementError Nat} :
    endPosition sql p = a ↔ Ends sql p a := by
  refine ⟨?_, Ends.endPosition_eq⟩
  rintro rfl
  obtain ⟨a, -, ha⟩ := @exists_scan?_eq sql p false (by simp)
  rwa [ha.endPosition_eq]

/-- The search fails at the positions only whose successor is looked at and is no word. -/
theorem scan?_eq (checked : Bool) (sql : String) (p : Nat) :
    scan? checked sql p =
      if checked ∧ UInt64.size ≤ p + 1 then none else some (endPosition sql p) := by
  by_cases hp : checked = true ∧ UInt64.size ≤ p + 1
  · rw [if_pos hp, scan?, if_pos hp]
    rfl
  · obtain ⟨a, hscan, ha⟩ := @exists_scan?_eq sql p checked hp
    rw [if_neg hp, hscan, ha.endPosition_eq]

end Found

/-- For every text and byte position, inside a character or beyond the end too, the end is
the one that the bytes tell, and the search for it can make every cut. The end found from a
position in the text lies behind that position and in the text, splits the text if a whole
character of one byte stands at the position, and has no earlier closing mark or line end
before it. An error names the kind of what opens at the position and is not closed, and says
where. -/
theorem endPosition_ends_at_first_mark (sql : String) (p : Nat) :
    (∀ a, endPosition sql p = a ↔ Ends sql p a) ∧
      (∀ checked, scan? checked sql p =
        if checked ∧ UInt64.size ≤ p + 1 then none else some (endPosition sql p)) ∧
      (∀ q, endPosition sql p = .ok q → p < byteLength sql.toList →
        p < q ∧ q ≤ byteLength sql.toList ∧
        (∀ b, (bytes sql.toList)[p]? = some b → b < 128 → IsBoundary sql.toList q) ∧
        (∀ kind opener closer what, Enclosed.Spelled kind opener closer what →
          (Opening.enclosed kind).OpensAt sql.toList p →
            ∀ r ∈ places closer sql.toList (p + opener.length), q ≤ r + closer.length) ∧
        ∀ mark, (Opening.lineComment mark).OpensAt sql.toList p →
          ∀ r ∈ lineEnds sql.toList (p + mark.length), q ≤ r) ∧
      ∀ e, endPosition sql p = .error e →
        ∃ kind opener closer what before after, Enclosed.Spelled kind opener closer what ∧
          sql.toList = before ++ (opener ++ after) ∧ p = byteLength before ∧
          places closer sql.toList (p + opener.length) = ∅ ∧
          e.span? = some (Span.point p) ∧ e.offset? = some before.length ∧
          e.message = "Unterminated " ++ what ++ " at position " ++ toString before.length := by
  refine ⟨fun a => endPosition_eq_iff_ends, fun checked => scan?_eq checked sql p,
    fun q hq hp => ?_, fun e he => (endPosition_eq_iff_ends.1 he).error⟩
  have h := endPosition_eq_iff_ends.1 hq
  obtain ⟨hlt, hle⟩ := h.lt_and_le hp
  exact ⟨hlt, hle, fun b hb hascii => h.isBoundary hb hascii,
    fun kind opener closer what hk ho => h.le_of_mem_places hk ho,
    fun mark ho => h.le_of_mem_lineEnds ho⟩

/-- In `é/*/ */x` the comment opens at byte 2, and the slash of its opening mark is no part of a
closing one. In `é"$$` a name opens there, and is told not to be closed. -/
theorem endPosition_of_overlapping_marks : endPosition "é/*/ */x" 2 = .ok 8 ∧
    2 < byteLength "é/*/ */x".toList ∧ 2 < 8 ∧ IsBoundary "é/*/ */x".toList 8 ∧
    ∃ e, endPosition "é\"$$" 2 = .error e ∧ e.span? = some (Span.point 2) := by
  have hend : endPosition "é/*/ */x" 2 = .ok 8 := by decide +kernel
  have hbyte : (bytes "é/*/ */x".toList)[2]? = some 0x2F := by decide +kernel
  have hp : 2 < byteLength "é/*/ */x".toList := by decide +kernel
  obtain ⟨hlt, -, hb, -⟩ := (endPosition_ends_at_first_mark "é/*/ */x" 2).2.2.1 8 hend hp
  refine ⟨hend, hp, hlt, hb _ hbyte (by decide), _, rfl, ?_⟩
  obtain ⟨_, _, _, _, _, _, -, -, -, -, hspan, -⟩ :=
    (endPosition_ends_at_first_mark "é\"$$" 2).2.2.2 _ rfl
  exact hspan

end Literal

end EscapeClause
