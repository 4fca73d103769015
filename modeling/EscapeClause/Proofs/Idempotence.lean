import EscapeClause.Proofs.Blanking
import EscapeClause.Proofs.Passage

/-! Processing a native text again. Reading the output of a statement replays its literals,
comments and native literals, and everything else is passed over character by character.
The one thing that can go wrong is a pair of dollars right behind a blanked byte: it is
inert in the statement but opens a dollar quote behind the space. Main statement: apart
from that, a second processing changes nothing. -/

namespace EscapeClause

open Text Grammar

namespace Segment

/-- The last character of the output is the old one unless its byte is blanked. -/
theorem getLast?_output {ss : List Segment} (hn : ∀ s ∈ ss, s.Narrow)
    (h : ¬ BlankAt ss (byteLength (ss.flatMap text) - 1)) :
    (ss.flatMap output).getLast? = (ss.flatMap text).getLast? := by
  induction ss with
  | nil => rfl
  | cons s ss ih =>
    have hns := hn s List.mem_cons_self
    have hnss : ∀ t ∈ ss, t.Narrow := fun t ht => hn t (List.mem_cons_of_mem s ht)
    have hlen := byteLength_flatMap_output hnss
    rw [List.flatMap_cons, byteLength_append] at h
    rw [List.flatMap_cons, List.flatMap_cons]
    by_cases htail : ss.flatMap text = []
    · have hout : ss.flatMap output = [] := by
        rw [← byteLength_eq_zero_iff, hlen, htail, byteLength_nil]
      rw [htail, byteLength_nil, Nat.add_zero] at h
      rw [htail, hout, List.append_nil, List.append_nil, output]
      split
      · next hb =>
        have hs : s.text = [] := by
          by_contra hne
          have hpos := mt byteLength_eq_zero_iff.1 hne
          exact h (.inl ⟨hb, by omega⟩)
        rw [hs]
        rfl
      · rfl
    · have hpos := mt byteLength_eq_zero_iff.1 htail
      have hout : ss.flatMap output ≠ [] := by
        rw [Ne, ← byteLength_eq_zero_iff, hlen]
        exact hpos
      rw [List.getLast?_append_of_ne_nil _ htail, List.getLast?_append_of_ne_nil _ hout]
      refine ih hnss fun hb => h (.inr ⟨by omega, ?_⟩)
      rwa [show byteLength s.text + byteLength (ss.flatMap text) - 1 - byteLength s.text =
        byteLength (ss.flatMap text) - 1 by omega]

end Segment

/-- What an item is read as when its output is read. -/
def Item.relict : Item → List Item
  | piece p => [piece p]
  | native gap body => [native gap body]
  | item => item.output.map (piece ∘ .plain)

namespace Item

theorem flatMap_output_relict (i : Item) : i.relict.flatMap output = i.output := by
  cases i with
  | piece p => exact List.append_nil _
  | native gap body => exact List.append_nil _
  | opening gap binding marker => exact flatMap_plain (fun _ => rfl) _
  | closing => exact flatMap_plain (fun _ => rfl) _

/-- An item that comes through is read again in front of another rest. -/
theorem read_replace {prev prev' : Option Char} {c : Char} {cs rest rest' : List Char} {i : Item}
    (h : Item.Read prev c cs i rest) (hout : i.output = i.source)
    (hp : Literal.Behind prev prev' (c :: cs)) (hr : Literal.Replaces rest rest') :
    ∃ c' cs', i.output ++ rest' = c' :: cs' ∧ Item.Read prev' c' cs' i rest' := by
  have ho : i.opensClause = false := by
    cases i with
    | opening => cases hout
    | _ => rfl
  obtain ⟨cs', hcs, hread⟩ := h.replace_of_not_opensClause ho hp hr
  rw [hout]
  exact ⟨c, cs', hcs, hread⟩

theorem levelBehind?_of_mem_relict {i j : Item} (h : j ∈ i.relict) (level : Nat) :
    j.levelBehind? level = some level := by
  cases i with
  | piece p => rw [List.mem_singleton.1 h]; rfl
  | native gap body => rw [List.mem_singleton.1 h]; rfl
  | opening gap binding marker => obtain ⟨c, -, rfl⟩ := List.mem_map.1 h; rfl
  | closing => obtain ⟨c, -, rfl⟩ := List.mem_map.1 h; rfl

end Item

/-- No two dollars stand right behind a blanked byte of the items. -/
def Calm (is : List Item) : Prop :=
  ∀ k before after, Segment.BlankAt (is.flatMap Item.segments) k →
    is.flatMap Item.source = before ++ '$' :: '$' :: after → byteLength before ≠ k + 1

theorem Calm.tail {i : Item} {is : List Item} (h : Calm (i :: is)) : Calm is := by
  intro k before after hk hs hb
  refine h (byteLength i.source + k) (i.source ++ before) after ?_ ?_ ?_
  · rw [List.flatMap_cons, Segment.blankAt_append_iff, Item.flatMap_text_segments]
    exact .inr ⟨by omega, by rwa [Nat.add_sub_cancel_left]⟩
  · rw [List.flatMap_cons, hs, List.append_assoc]
  · rw [byteLength_append]
    omega

/-- A blanked byte at the end of an item is not followed by two dollars. -/
theorem Calm.not_blankAt {i : Item} {is : List Item} (h : Calm (i :: is))
    (hne : i.source ≠ []) (hd : ['$', '$'] <+: is.flatMap Item.source) :
    ¬ Segment.BlankAt i.segments (byteLength i.source - 1) := by
  intro hb
  obtain ⟨after, hafter⟩ := hd
  have hpos := mt byteLength_eq_zero_iff.1 hne
  refine h (byteLength i.source - 1) i.source after ?_ ?_ (by omega)
  · rw [List.flatMap_cons, Segment.blankAt_append_iff]
    exact .inl hb
  · rw [List.flatMap_cons, ← hafter]
    rfl

namespace Reading

/-- The output of a text may take its place behind an item. -/
theorem Complete.replaces {prev : Option Char} {cs : List Char} {is : List Item}
    (h : Complete prev cs is) : Literal.Replaces cs (is.flatMap Item.output) := by
  cases h with
  | nil => exact .of_head?_eq rfl
  | @cons _ c tail rest i is hi hr =>
    have hsource := Item.append_of_read hi
    have hsame (hout : i.output = i.source) :
        Literal.Replaces (c :: tail) ((i :: is).flatMap Item.output) := by
      apply Literal.Replaces.of_head?_eq
      obtain ⟨d, ds, hds⟩ := List.exists_cons_of_ne_nil (Item.source_ne_nil_of_read hi)
      rw [List.flatMap_cons, hout, hsource, hds]
      rfl
    have hblank {xs : List Char} (hc : isLineEnd c = false) (hx : i.output = ' ' :: xs) :
        Literal.Replaces (c :: tail) ((i :: is).flatMap Item.output) := by
      refine ⟨fun hl => ?_, fun d hd hh => ?_⟩
      · rw [lineRest, List.takeWhile_cons_of_pos (by simp [hc])] at hl
        cases hl
      · rw [List.flatMap_cons, hx] at hh
        cases hh
        simp at hd
    cases Item.read_eq_ok_iff.1 hi with
    | piece => exact hsame rfl
    | native => exact hsame rfl
    | closing => exact hblank (by decide) rfl
    | opening => exact hblank (by decide) rfl

/-- Reading the output replays the reading, where no dollars stand behind a blanked byte. -/
theorem Complete.replay {prev prev' : Option Char} {cs : List Char} {is : List Item}
    (h : Complete prev cs is) (hp : Literal.Behind prev prev' cs) (hd : Calm is) :
    Complete prev' (is.flatMap Item.output) (is.flatMap Item.relict) := by
  induction h generalizing prev' with
  | nil => exact .nil prev'
  | @cons prev c tail rest i is hi hr ih =>
    have hread := Item.read_eq_ok_iff.1 hi
    have hne := Item.source_ne_nil_of_read hi
    rw [List.flatMap_cons, List.flatMap_cons]
    -- the character before a text matters only to two dollars, and those are not behind a blank
    have hblanks (hg : IsGap i.output) (hrelict : i.relict = i.output.map (.piece ∘ .plain)) :
        Complete prev' (i.output ++ is.flatMap Item.output)
          (i.relict ++ is.flatMap Item.relict) := by
      rw [hrelict]
      refine .append_inert (fun x hx => inert_of_isBlank (hg x hx))
        (ih (fun hdollars => ?_) hd.tail)
      rw [← hr.flatMap_source] at hdollars
      have hlast := Segment.getLast?_output (Item.narrow_of_read hread)
        (by rw [Item.flatMap_text_segments]; exact hd.not_blankAt hne hdollars)
      rw [Item.flatMap_output_segments, Item.flatMap_text_segments] at hlast
      rw [hlast]
      cases hl : i.source.getLast? with
      | none => exact absurd (List.getLast?_eq_none_iff.1 hl) hne
      | some x => rfl
    have hkept (hout : i.output = i.source) (hrelict : i.relict = [i]) :
        Complete prev' (i.output ++ is.flatMap Item.output)
          (i.relict ++ is.flatMap Item.relict) := by
      obtain ⟨c', cs', hcs, hread'⟩ := Item.read_replace hread hout hp hr.replaces
      rw [hcs, hrelict]
      exact .cons (Item.read_eq_ok_iff.2 hread') (ih (fun _ => rfl) hd.tail)
    cases hread with
    | piece => exact hkept rfl rfl
    | native => exact hkept rfl rfl
    | closing => exact hblanks (List.forall_mem_singleton.2 (by decide)) rfl
    | opening ho ht => exact hblanks (ho.isGap_output _) rfl

end Reading

/-- Two dollars behind no blanked byte of the text stand behind none of its items. -/
theorem calm_of_blanked {cs : List Char} {is : List Item} (h : Reading.Complete none cs is)
    (hd : ∀ k before after, Blanked cs k → cs = before ++ '$' :: '$' :: after →
      byteLength before ≠ k + 1) : Calm is := by
  intro k before after hk hs
  rw [h.flatMap_source] at hs
  exact hd k before after ((blanked_iff h).2 hk) hs

/-- What is left of the items opens and closes nothing. -/
theorem levelBehind_relict (is : List Item) (level : Nat) :
    Nesting.levelBehind level (is.flatMap Item.relict) = .ok level := by
  refine Nesting.levelBehind_of_forall fun j hj => ?_
  obtain ⟨i, -, hji⟩ := List.mem_flatMap.1 hj
  exact Item.levelBehind?_of_mem_relict hji level

/-- A native text is its own native text, unless two dollars stand right behind a blanked
byte of the statement while an opening brace is left. -/
theorem nativeText_idempotent {sql : String} {t : NativeText} (h : nativeText sql true = .ok t)
    (hd : '{' ∈ t.text.toList → ∀ k before after, Blanked sql.toList k →
      sql.toList = before ++ '$' :: '$' :: after → byteLength before ≠ k + 1) :
    ∃ t', nativeText t.text true = .ok t' ∧ t'.text = t.text := by
  by_cases hleft : '{' ∈ t.text.toList
  · have hb : '{' ∈ sql.toList := by
      by_contra hb
      rw [nativeText_of_not_mem hb] at h
      cases h
      exact hb hleft
    obtain ⟨is, hr, hl, -, hout⟩ := NativeText.exists_reading hb h
    have hcalm : Calm is := by
      intro k before after hk hs
      rw [hr.flatMap_source] at hs
      exact hd hleft k before after ((blanked_iff hr).2 hk) hs
    have hagain := hr.replay (fun _ => rfl) hcalm
    rw [← hout] at hagain
    have hlevel : Nesting.levelBehind 0 (is.flatMap Item.relict) = .ok 0 := by
      refine Nesting.levelBehind_of_forall fun j hj => ?_
      obtain ⟨i, -, hji⟩ := List.mem_flatMap.1 hj
      exact Item.levelBehind?_of_mem_relict hji 0
    have hread := readStatement_eq_ok_iff.2 ⟨Reading.complete_iff.1 hagain, hlevel⟩
    refine ⟨_, by rw [nativeText_of_mem hleft, hread], ?_⟩
    apply String.toList_injective
    rw [NativeText.toList_text_ofItems hagain.flatMap_source hlevel, hout, List.flatMap_assoc]
    simp only [Item.flatMap_output_relict]
  · exact ⟨.submitted t.text, nativeText_of_not_mem hleft, rfl⟩

theorem nativeText_idempotent_call :
    nativeText "{fn f({1})}" true = .ok (.built "    f({1}) ") ∧
      ∃ t, nativeText "    f({1}) " true = .ok t ∧ t.text = "    f({1}) " := by
  have h : nativeText "{fn f({1})}" true = .ok (.built "    f({1}) ") := by decide +kernel
  refine ⟨h, nativeText_idempotent h fun _ _ before after _ hs => ?_⟩
  have hno : '$' ∉ "{fn f({1})}".toList := by decide
  exact absurd (by rw [hs]; simp) hno

/-- The dollars of the clause open a quote once the brace before them is a space. -/
theorem not_nativeText_idempotent_dollars :
    ¬ ∀ (sql : String) (t : NativeText), nativeText sql true = .ok t →
      ∃ t', nativeText t.text true = .ok t' ∧ t'.text = t.text := by
  intro h
  have hfirst : nativeText "{$$} {1}" true = .ok (.built " $$  {1}") := by decide +kernel
  have hsecond : nativeText " $$  {1}" true =
      .error (.malformed (.unterminated "dollar-quoted string") (Span.point 1) 1) := by
    decide +kernel
  obtain ⟨t', ht', -⟩ := h _ _ hfirst
  rw [show (NativeText.built " $$  {1}").text = " $$  {1}" from rfl, hsecond] at ht'
  cases ht'

end EscapeClause
