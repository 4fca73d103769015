import EscapeClause.Literal
import EscapeClause.Proofs.Text

/-! Literals and comments in changing surroundings. What starts at the front of a text is
decided by its mark and, for two dollars, by the character before it. Main statements:
`endPosition` measures what `skip` splits off, and `skip` splits off the same when
the rest behind it is replaced by one that begins alike. -/

namespace EscapeClause

namespace Text

theorem splitAfter_replace {mark cs before after : List Char}
    (h : splitAfter mark cs = some (before, after)) (after' : List Char) :
    splitAfter mark (before ++ after') = some (before, after') := by
  induction cs generalizing before with
  | nil =>
    rw [splitAfter] at h
    split at h <;> cases h
    rw [splitAfter.eq_def, if_pos (List.prefix_append _ _), List.drop_left]
  | cons c cs ih =>
    have hm := suffix_of_splitAfter h
    rw [splitAfter] at h
    split at h
    · cases h
      rw [splitAfter.eq_def, if_pos (List.prefix_append _ _), List.drop_left]
    · next hc =>
      obtain ⟨⟨inner, rest⟩, hr, he⟩ := Option.map_eq_some_iff.1 h
      cases he
      have hne : ¬ mark <+: c :: (inner ++ after') := by
        intro hp
        have hl := (suffix_of_splitAfter hr).length_le
        have hi : mark <+: c :: inner := by
          rw [← List.cons_append] at hp
          exact List.prefix_of_prefix_length_le hp (List.prefix_append _ _)
            (by rw [List.length_cons]; omega)
        apply hc
        rw [append_of_splitAfter hr, ← List.cons_append]
        exact hi.trans (List.prefix_append _ _)
      rw [List.cons_append, splitAfter, if_neg hne, ih hr]
      rfl

theorem isLineEnd_of_head?_dropLine {c : Char} {cs : List Char}
    (h : (dropLine cs).head? = some c) : isLineEnd c = true := by
  have hhead := List.head?_dropWhile_not (fun c => !isLineEnd c) cs
  rw [dropLine] at h
  rw [h] at hhead
  simpa using hhead

theorem lineRest_dropLine (cs : List Char) : lineRest (dropLine cs) = [] := by
  cases h : dropLine cs with
  | nil => rfl
  | cons c rest =>
    have hc := isLineEnd_of_head?_dropLine (congrArg List.head? h)
    exact List.takeWhile_cons_of_neg (by simp [hc])

theorem lineRest_append {cs rest : List Char} (hcs : ∀ c ∈ cs, isLineEnd c = false)
    (hr : lineRest rest = []) : lineRest (cs ++ rest) = cs := by
  rw [lineRest, List.takeWhile_append_of_pos (by simpa using hcs)]
  rw [lineRest] at hr
  rw [hr, List.append_nil]

theorem dropLine_append {cs rest : List Char} (hcs : ∀ c ∈ cs, isLineEnd c = false)
    (hr : lineRest rest = []) : dropLine (cs ++ rest) = rest := by
  have h := lineRest_append_dropLine (cs ++ rest)
  rw [lineRest_append hcs hr] at h
  exact List.append_cancel_left h

theorem isLineEnd_of_mem_lineRest {c : Char} {cs : List Char} (hc : c ∈ lineRest cs) :
    isLineEnd c = false := by
  have h := List.all_eq_true.1 (List.all_takeWhile (l := cs) (p := fun c => !isLineEnd c)) c hc
  simpa using h

end Text

namespace Enclosed

variable (kind : Enclosed)

theorem opener_ne_nil : kind.opener ≠ [] := by cases kind <;> exact List.cons_ne_nil _ _

theorem closer_ne_nil : kind.closer ≠ [] := by cases kind <;> exact List.cons_ne_nil _ _

theorem utf8Size_of_mem_opener : ∀ c ∈ kind.opener, c.utf8Size = 1 :=
  Text.utf8Size_of_all (by cases kind <;> decide)

theorem utf8Size_of_mem_closer : ∀ c ∈ kind.closer, c.utf8Size = 1 :=
  Text.utf8Size_of_all (by cases kind <;> decide)

end Enclosed

namespace Literal

open Text

/-- What lets a mark start something behind `prev`. -/
def Opening.Starts (prev : Option Char) : Opening → Prop
  | enclosed .dollarQuoted => prev.all isBlank = true
  | enclosed _ => True
  | lineComment mark => mark = ['/', '/'] ∨ mark = ['-', '-']

theorem opening?_eq_some_iff {prev : Option Char} {cs body : List Char} {o : Opening} :
    opening? prev cs = some (o, body) ↔ cs = o.mark ++ body ∧ o.Starts prev := by
  constructor
  · intro h
    refine ⟨append_of_opening? h, ?_⟩
    unfold opening? at h
    split at h
    case h_3 =>
      split at h
      · next hp => cases h; exact hp
      · cases h
    all_goals cases h
    all_goals first | trivial | exact .inl rfl | exact .inr rfl
  · rintro ⟨rfl, hs⟩
    rcases o with kind | mark
    · cases kind with
      | dollarQuoted => exact if_pos hs
      | _ => rfl
    · rcases hs with rfl | rfl <;> rfl

/-- A replacement for the rest of a text that changes nothing for what stands before it:
it ends a line where the old rest does, and brings no new second character of a mark. -/
structure Replaces (rest rest' : List Char) : Prop where
  lineRest_eq : lineRest rest = [] → lineRest rest' = []
  head?_eq : ∀ c ∈ ['$', '*', '/', '-'], rest'.head? = some c → rest.head? = some c

theorem Replaces.of_head?_eq {rest rest' : List Char} (h : rest'.head? = rest.head?) :
    Replaces rest rest' := by
  refine ⟨?_, fun c _ hc => h ▸ hc⟩
  cases rest <;> cases rest' <;> cases h
  · exact id
  · rw [lineRest, lineRest, List.takeWhile_cons, List.takeWhile_cons]
    split
    · intro h
      cases h
    · exact id

theorem pass_replace {o : Opening} {body passed rest rest' : List Char}
    (h : o.pass body = .ok (passed, rest)) (hr : Replaces rest rest') :
    ∃ inner, passed = o.mark ++ inner ∧ o.pass (inner ++ rest') = .ok (passed, rest') := by
  cases o with
  | enclosed kind =>
    rw [Opening.pass] at h
    split at h
    · next inner after hs =>
      cases h
      exact ⟨inner, rfl, by rw [Opening.pass, splitAfter_replace hs]⟩
    · cases h
  | lineComment mark =>
    cases h
    have hl := hr.lineRest_eq (lineRest_dropLine body)
    have hb : ∀ c ∈ lineRest body, isLineEnd c = false := fun c => isLineEnd_of_mem_lineRest
    exact ⟨lineRest body, rfl, by rw [Opening.pass, lineRest_append hb hl, dropLine_append hb hl]⟩

/-- The character before a text matters to it only if it begins with two dollars. -/
def Behind (prev prev' : Option Char) (cs : List Char) : Prop :=
  ['$', '$'] <+: cs → prev'.all isBlank = prev.all isBlank

theorem Opening.Starts.behind {prev prev' : Option Char} {o : Opening} {body : List Char}
    (h : o.Starts prev) (hp : Behind prev prev' (o.mark ++ body)) : o.Starts prev' := by
  rcases o with kind | mark
  · cases kind with
    | dollarQuoted => exact (hp (List.prefix_append _ _)).trans h
    | _ => trivial
  · exact h

theorem opening?_replace_eq_none {prev prev' : Option Char} {c : Char} {rest rest' : List Char}
    (h : opening? prev (c :: rest) = none) (hp : Behind prev prev' (c :: rest))
    (hr : Replaces rest rest') : opening? prev' (c :: rest') = none := by
  rw [Option.eq_none_iff_forall_ne_some] at h ⊢
  rintro ⟨o, body⟩ ho
  obtain ⟨he, hs⟩ := opening?_eq_some_iff.1 ho
  -- the same mark would have started in front of the old rest
  obtain ⟨tail, ht⟩ : ∃ tail, c :: rest = o.mark ++ tail := by
    have hsecond {x y : Char} (hm : o.mark = [x, y]) (hy : y ∈ ['$', '*', '/', '-']) :
        ∃ tail, c :: rest = o.mark ++ tail := by
      rw [hm] at he ⊢
      obtain ⟨rfl, rfl⟩ := List.cons.inj he
      obtain ⟨tail, rfl⟩ := List.head?_eq_some_iff.1 (hr.head?_eq y hy rfl)
      exact ⟨tail, rfl⟩
    rcases o with kind | mark
    · cases kind with
      | stringLiteral => cases he; exact ⟨rest, rfl⟩
      | quotedIdentifier => cases he; exact ⟨rest, rfl⟩
      | dollarQuoted => exact hsecond rfl (by decide)
      | blockComment => exact hsecond rfl (by decide)
    · rcases hs with rfl | rfl
      · exact hsecond rfl (by decide)
      · exact hsecond rfl (by decide)
  refine h _ (opening?_eq_some_iff.2 ⟨ht, ?_⟩)
  rw [ht] at hp
  exact hs.behind fun hd => (hp hd).symm

theorem skip_replace {prev prev' : Option Char} {cs passed rest rest' : List Char}
    (h : skip prev cs = .ok (passed, rest)) (hcs : cs ≠ []) (hp : Behind prev prev' cs)
    (hr : Replaces rest rest') : skip prev' (passed ++ rest') = .ok (passed, rest') := by
  unfold skip at h
  split at h
  · next o body ho =>
    obtain ⟨rfl, hs⟩ := opening?_eq_some_iff.1 ho
    obtain ⟨inner, rfl, hi⟩ := pass_replace h hr
    have hs' := hs.behind hp
    rw [skip, opening?_eq_some_iff.2 ⟨List.append_assoc .., hs'⟩]
    exact hi
  · next ho =>
    obtain ⟨c, cs, rfl⟩ := List.exists_cons_of_ne_nil hcs
    cases h
    have hn := opening?_replace_eq_none ho hp hr
    rw [List.take_succ_cons, List.take_zero, List.singleton_append, skip, hn]
    rfl

/-- The position behind what starts at a boundary, where a character of one byte stands. -/
theorem endPosition_eq (before : List Char) {c : Char} (cs : List Char) (hc : c.utf8Size = 1) :
    endPosition (String.ofList (before ++ c :: cs)) (byteLength before) =
      match skip before.getLast? (c :: cs) with
      | .ok (passed, _) => .ok (byteLength before + byteLength passed)
      | .error kind => .error (Fault.error ⟨kind.unterminated, before⟩) := by
  rw [endPosition, String.toList_ofList, locate_byteLength, skip]
  dsimp only
  cases ho : opening? before.getLast? (c :: cs) with
  | none => simp [hc]
  | some r =>
    obtain ⟨o, body⟩ := r
    cases hp : o.pass body <;> simp only [hp]

end Literal

end EscapeClause
