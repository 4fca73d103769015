import EscapeClause.Proofs.Idempotence
import EscapeClause.Proofs.Rewriter.Trail

/-! The lexical view of a statement and of its native text. A second run walks over blanks
where the first one took clauses apart, and over everything else as the first one did.
Main statement: both make the same jumps, and each opening brace that the second comes to
belongs to a native literal of the statement. -/

namespace EscapeClause

open Text Grammar

theorem placed_plain (pos : Nat) (cs : List Char) :
    placed Item.source Item.jumps pos (cs.map (.piece ∘ .plain)) = [] := by
  induction cs generalizing pos with
  | nil => rfl
  | cons c cs ih =>
    rw [List.map_cons, placed, ih]
    rfl

namespace Item

theorem flatMap_source_relict (i : Item) : i.relict.flatMap source = i.output := by
  cases i with
  | piece p => exact List.append_nil _
  | native gap body => exact List.append_nil _
  | opening gap binding marker => exact flatMap_plain (fun _ => rfl) _
  | closing => exact flatMap_plain (fun _ => rfl) _

theorem placed_relict (pos : Nat) (i : Item) : placed source jumps pos i.relict = i.jumps pos := by
  cases i with
  | piece p => exact List.append_nil _
  | native gap body => exact List.append_nil _
  | opening gap binding marker => exact placed_plain pos _
  | closing => exact placed_plain pos _

/-- Of an item that is a native literal nothing else is left. -/
theorem eq_of_relict_eq {i : Item} {gap : List Char} {body : List Piece} {js ks : List Item}
    (h : i.relict = js ++ Item.native gap body :: ks) : i = native gap body ∧ js = [] := by
  have hplain {cs : List Char} : cs.map (piece ∘ .plain) ≠ js ++ Item.native gap body :: ks := by
    intro h
    have hmem : native gap body ∈ cs.map (piece ∘ .plain) := by rw [h]; simp
    obtain ⟨c, -, hc⟩ := List.mem_map.1 hmem
    cases hc
  cases i with
  | piece p =>
    have hmem : native gap body ∈ [piece p] := by
      rw [show [piece p] = js ++ Item.native gap body :: ks from h]
      simp
    cases List.mem_singleton.1 hmem
  | native gap' body' =>
    cases js with
    | nil => cases h; exact ⟨rfl, rfl⟩
    | cons j js =>
      exact absurd (List.cons.inj h).2.symm
        (List.append_ne_nil_of_right_ne_nil js (List.cons_ne_nil _ _))
  | opening gap' binding marker => exact absurd h hplain
  | closing => exact absurd h hplain

theorem opensClause_of_mem_relict {i j : Item} (h : j ∈ i.relict) : j.opensClause = false := by
  cases ho : j.opensClause with
  | false => rfl
  | true =>
    have hl := levelBehind?_of_mem_relict h 0
    rw [levelBehind?_of_opensClause ho] at hl
    cases hl

end Item

/-- The blanks for a clause take no jump and as many bytes as the clause. -/
theorem Reading.Complete.jumps_relict {prev : Option Char} {cs : List Char} {is : List Item}
    (h : Complete prev cs is) : jumps (is.flatMap Item.relict) = jumps is := by
  have hplaced (pos : Nat) : placed Item.source Item.jumps pos (is.flatMap Item.relict) =
      placed Item.source Item.jumps pos is := by
    induction h generalizing pos with
    | nil => rfl
    | cons hi _ ih =>
      rw [List.flatMap_cons, placed_append, Item.placed_relict, Item.flatMap_source_relict,
        Item.byteLength_output (Item.read_eq_ok_iff.1 hi), ih, placed]
  exact hplaced 0

namespace Rewriter

/-- A run that succeeds makes the jumps of the items and no others. -/
theorem trail_iff {sql : String} {is : List Item} {t : NativeText}
    (hr : Reading.Complete none sql.toList is) (hh : Halts (start sql) (.done t)) (ks : List Span)
    (k : Halt) : Trail (start sql) ks k ↔ ks = jumps is ∧ k = .done t := by
  obtain ⟨js, hjs⟩ := hh.exists_trail
  obtain ⟨is', hr', rfl⟩ := (follows_start sql).of_trail hjs
  have hsame := (Reading.complete_iff.1 hr).symm.trans (Reading.complete_iff.1 hr')
  cases hsame
  constructor
  · exact hjs.unique
  · rintro ⟨rfl, rfl⟩
    exact hjs

end Rewriter

namespace Grammar

/-- `NativeAt cs p lit`: at byte `p` of the text stands the native literal `lit`. -/
def NativeAt (cs : List Char) (p : Nat) (lit : List Char) : Prop :=
  ∃ us gap body vs, Reads [] cs (us ++ .native gap body :: vs) [] ∧
    p = byteLength (text us) ∧ lit = (Token.native gap body).text

theorem nativeAt_of_complete {cs gap : List Char} {is js : List Item} {body : List Piece}
    (h : Reading.Complete none cs (is ++ .native gap body :: js)) :
    NativeAt cs (byteLength (is.flatMap Item.source)) (Item.native gap body).source := by
  refine ⟨is.flatMap Item.tokens, gap, body.flatMap Piece.text, js.flatMap Item.tokens, ?_, ?_,
    rfl⟩
  · have hreads := @reads_of_complete [] cs _ h
    rwa [List.flatMap_append, List.flatMap_cons] at hreads
  · rw [text_flatMap_tokens]

end Grammar

section Native

variable {cs out gap : List Char} {is js ks : List Item} {body : List Piece}

/-- Where a native literal stands in the output, it stands in the statement. -/
theorem nativeAt_of_relict (h : Reading.Complete none cs is)
    (hout : Reading.Complete none out (is.flatMap Item.relict))
    (hjs : is.flatMap Item.relict = js ++ .native gap body :: ks) :
    NativeAt cs (byteLength (js.flatMap Item.source)) (Item.native gap body).source ∧
      NativeAt out (byteLength (js.flatMap Item.source)) (Item.native gap body).source := by
  obtain ⟨us, i, vs, before, after, rfl, hi, rfl, -⟩ := exists_of_flatMap_eq_append_cons hjs
  obtain ⟨rfl, rfl⟩ := Item.eq_of_relict_eq hi
  rw [hjs] at hout
  refine ⟨?_, nativeAt_of_complete hout⟩
  have hlength : byteLength ((us.flatMap Item.relict ++ []).flatMap Item.source) =
      byteLength (us.flatMap Item.source) := by
    rw [List.append_nil, List.flatMap_assoc]
    simp only [Item.flatMap_source_relict]
    exact byteLength_flatMap_output h
  rw [hlength]
  exact nativeAt_of_complete h

/-- An opening brace in the output begins a native literal. -/
theorem exists_native_of_relict {prev : Option Char} {rest : List Char}
    (hks : Reading.Complete prev ('{' :: rest) ks) (hmem : ∀ k ∈ ks, k.opensClause = false) :
    ∃ gap body mid ks', ks = .native gap body :: ks' ∧
      Item.Read prev '{' rest (.native gap body) mid := by
  cases hks with
  | @cons _ _ _ mid i ks' hi hr =>
    have hread := Item.read_eq_ok_iff.1 hi
    have hread' := hread
    cases hread with
    | piece ho => exact absurd rfl ho
    | native => exact ⟨_, _, _, _, rfl, hread'⟩
    | opening => cases hmem _ List.mem_cons_self

theorem isDigit_of_read_native {prev : Option Char} {gap' rest mid : List Char} {c : Char}
    (h : Item.Read prev '{' (gap ++ c :: rest) (.native gap' body) mid) (hg : IsGap gap)
    (hc : isBlank c = false) : c.isDigit = true := by
  obtain ⟨gap₁, d, after, hs, hg₁, hd⟩ := h.opensClause_eq_false_iff.1 rfl
  obtain ⟨-, htail⟩ := gap_append_inj hg hg₁ (head?_of_not_isBlank hc)
    (head?_of_not_isBlank (Item.isBlank_of_isDigit hd)) hs
  rwa [(List.cons.inj htail).1]

/-- A brace that the reading of the output comes to begins a native literal of both texts. -/
theorem nativeAt_of_passes {rest : List Char} (h : Reading.Complete none cs is)
    (hout : Reading.Complete none out (is.flatMap Item.relict))
    (hp : Reading.Passes none out js ('{' :: rest)) :
    ∃ prev gap body mid, Item.Read prev '{' rest (.native gap body) mid ∧
      NativeAt cs (byteLength (js.flatMap Item.source)) (Item.native gap body).source ∧
      NativeAt out (byteLength (js.flatMap Item.source)) (Item.native gap body).source := by
  obtain ⟨prev, ks, hks, hrest⟩ := hp.exists_append hout
  have hmem : ∀ k ∈ ks, k.opensClause = false := by
    intro k hk
    have hk' : k ∈ is.flatMap Item.relict := by
      rw [hks]
      exact List.mem_append_right js hk
    obtain ⟨i, -, hi⟩ := List.mem_flatMap.1 hk'
    exact Item.opensClause_of_mem_relict hi
  obtain ⟨gap, body, mid, ks', rfl, hread⟩ := exists_native_of_relict hrest hmem
  exact ⟨prev, gap, body, mid, hread, nativeAt_of_relict h hout hks⟩

end Native

namespace Rewriter

/-- A brace that a run over the output comes to begins a native literal of both texts or stands
inside of one. -/
theorem Follows.nativeAt_of_peek {cs out : List Char} {is : List Item} {r : Rewriter}
    {ks : List Span} (hf : Follows out r ks) (h : Reading.Complete none cs is)
    (hout : Reading.Complete none out (is.flatMap Item.relict))
    (hpeek : r.peek = .ok (some '{')) :
    ∃ p lit, NativeAt cs p lit ∧ NativeAt out p lit ∧
      (r.point = .scan ∧ r.cursor.pos = p ∨
        r.point = .native ∧ p < r.cursor.pos ∧ r.cursor.pos < p + byteLength lit) := by
  -- behind the gap of a native literal stands a digit
  have hdigit {js : List Item} {gap rest : List Char} {c : Char}
      (hp : Reading.Passes none out js ('{' :: (gap ++ c :: rest))) (hg : IsGap gap)
      (hb : isBlank c = false) (hd : c.isDigit = false) : False := by
    obtain ⟨_, _, _, _, hread, -⟩ := nativeAt_of_passes h hout hp
    rw [isDigit_of_read_native hread hg hb] at hd
    cases hd
  cases hf with
  | @scan js _ done kept after level hp hl hs =>
    rw [peek_state] at hpeek
    obtain ⟨rest, rfl⟩ := List.head?_eq_some_iff.1 (Except.ok.inj hpeek)
    obtain ⟨_, gap, body, _, -, hcs, hds⟩ := nativeAt_of_passes h hout hp
    refine ⟨_, _, hcs, hds, .inl ⟨rfl, ?_⟩⟩
    rw [← hs]
    rfl
  | opened hp hl hg hc hs =>
    rw [peek_state] at hpeek
    obtain ⟨rest, rfl⟩ := List.head?_eq_some_iff.1 (Except.ok.inj hpeek)
    exact (hdigit hp hg (by decide) (by decide)).elim
  | binding hp hl hg h₁ hs => exact (hdigit hp hg (by decide) (by decide)).elim
  | word hp hl ho hs =>
    cases ho with
    | clause hg hb hd hq => exact (hdigit hp hg hb hd).elim
    | bound hg h₁ h₂ ht =>
      rw [Option.elim_some, Binding.source_append] at hp
      exact (hdigit hp hg (by decide) (by decide)).elim
  | @native js _ done kept gap after ds d body level hp hl hg hd hb hs =>
    obtain ⟨prev, gap', body', mid, hread, hcs, hds⟩ := nativeAt_of_passes h hout hp
    have hitem := Item.read_eq_ok_iff.2 hread
    rw [Item.read, if_pos rfl, Item.readOpening_native hg hd, hb.readBody_eq] at hitem
    generalize Item.readBody ((body.flatMap Piece.text).getLast?.or ('{' :: gap).getLast?) after =
      answer at hitem
    cases answer with
    | error f => cases hitem
    | ok answer =>
      obtain ⟨tail, mid⟩ := answer
      cases hitem
      refine ⟨_, _, hcs, hds, .inr ⟨rfl, ?_⟩⟩
      have hopen := '{'.utf8Size_pos
      have hclose := '}'.utf8Size_pos
      show byteLength (js.flatMap Item.source) < byteLength (done ++ kept) ∧
        byteLength (done ++ kept) < byteLength (js.flatMap Item.source) + _
      rw [hs]
      simp only [Item.source, List.flatMap_append, byteLength_append, byteLength_cons,
        byteLength_nil]
      omega

/-- The run over a text whose items are known to nest ends with them. -/
theorem halts_of_complete {sql : String} {is : List Item}
    (h : Reading.Complete none sql.toList is) (hl : Nesting.levelBehind 0 is = .ok 0) :
    Halts (start sql) (.done (ending sql.toList (is.flatMap Item.output)
      (is.any Item.opensBrace))) := by
  have hh := halts_start sql
  rw [Reading.complete_iff.1 h] at hh
  simpa only [verdict, hl, if_true, List.nil_append, Bool.false_or, h.flatMap_source] using hh

theorem text_ending_self (sql : String) (begun : Bool) :
    (ending sql.toList sql.toList begun).text = sql := by
  cases begun <;> exact String.ofList_toList

end Rewriter

/-- The lexical view survives. Where no two dollars stand right behind a blanked byte, the run
over the native text makes the jumps that the run over the statement made, in the same order
and over the same bytes, and changes nothing. Each opening brace that it comes to begins a
native literal of the statement, at the same place, or stands inside of one. -/
theorem nativeText_keeps_lexical_view {sql : String} {t : NativeText} (hb : '{' ∈ sql.toList)
    (h : nativeText sql true = .ok t)
    (hd : ∀ k before after, Blanked sql.toList k →
      sql.toList = before ++ '$' :: '$' :: after → byteLength before ≠ k + 1) :
    ∃ js t', t'.text = t.text ∧
      (∀ ks k, Rewriter.Trail (.start sql) ks k ↔ ks = js ∧ k = .done t) ∧
      (∀ ks k, Rewriter.Trail (.start t.text) ks k ↔ ks = js ∧ k = .done t') ∧
      ∀ r, Rewriter.Reaches (.start t.text) r → r.peek = .ok (some '{') →
        ∃ p lit, NativeAt sql.toList p lit ∧ NativeAt t.text.toList p lit ∧
          (r.point = .scan ∧ r.cursor.pos = p ∨
            r.point = .native ∧ p < r.cursor.pos ∧ r.cursor.pos < p + byteLength lit) := by
  obtain ⟨is, hr, -, -, hout⟩ := NativeText.exists_reading hb h
  have hagain := hr.replay (fun _ => rfl) (calm_of_blanked hr hd)
  rw [← hout] at hagain
  have hrun := Rewriter.halts_start sql
  rw [Rewriter.verdict_start hb, h] at hrun
  have hrun' := Rewriter.halts_of_complete hagain (levelBehind_relict is 0)
  have hsame : (is.flatMap Item.relict).flatMap Item.output = t.text.toList := by
    rw [List.flatMap_assoc, hout]
    simp only [Item.flatMap_output_relict]
  rw [hsame] at hrun'
  have htrail' := Rewriter.trail_iff hagain hrun'
  rw [hr.jumps_relict] at htrail'
  refine ⟨jumps is, _, Rewriter.text_ending_self t.text _, Rewriter.trail_iff hr hrun, htrail',
    fun r hreach hpeek => ?_⟩
  obtain ⟨ks, hf⟩ := (Rewriter.follows_start t.text).of_reaches hreach
  exact hf.nativeAt_of_peek hr hagain hpeek

/-- The sign in the native literal and the comment are jumped over again. -/
theorem nativeText_keeps_lexical_view_call :
    nativeText "{fn f({1 -2})} --x" true = .ok (.built "    f({1 -2})  --x") ∧
      ∃ js t', t'.text = "    f({1 -2})  --x" ∧
        Rewriter.Trail (.start "{fn f({1 -2})} --x") js
          (.done (.built "    f({1 -2})  --x")) ∧
        Rewriter.Trail (.start "    f({1 -2})  --x") js (.done t') := by
  have h : nativeText "{fn f({1 -2})} --x" true = .ok (.built "    f({1 -2})  --x") := by
    decide +kernel
  have hno : '$' ∉ "{fn f({1 -2})} --x".toList := by decide
  obtain ⟨js, t', htext, hfirst, hsecond, -⟩ := nativeText_keeps_lexical_view (by decide) h
    fun _ before after _ hs => absurd (by rw [hs]; simp) hno
  exact ⟨h, js, t', htext, (hfirst js _).2 ⟨rfl, rfl⟩, (hsecond js _).2 ⟨rfl, rfl⟩⟩

end EscapeClause
