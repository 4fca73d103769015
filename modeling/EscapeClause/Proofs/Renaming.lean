import EscapeClause.Proofs.Renaming.Classes
import EscapeClause.Proofs.Cause

/-! Processing commutes with a renaming of characters that keeps their classes. What is
read of the renamed text is renamed, item by item, and a fault keeps its place among the
characters although it moves among the bytes. Main statement: the native text of the renamed
statement is the renamed native text, and the two statements fail together. -/

namespace EscapeClause

open Text

variable {f : Char → Char}

namespace Piece

def map (f : Char → Char) : Piece → Piece
  | passed text => passed (text.map f)
  | plain c => plain (f c)

@[simp] theorem text_map (f : Char → Char) (p : Piece) : (p.map f).text = p.text.map f := by
  cases p <;> rfl

/-- The piece that is read of a renamed text is renamed. -/
theorem read_map (hf : KeepsClasses f) (prev : Option Char) (c : Char) (cs : List Char) :
    read (prev.map f) (f c) (cs.map f) =
      (read prev c cs).map (Prod.map (map f) (List.map f)) := by
  have hskip := @KeepsClasses.skip_map f hf prev (c :: cs)
  rw [List.map_cons] at hskip
  rw [read, read, hf.mayStartLiteral, hskip]
  split
  · cases Literal.skip prev (c :: cs) <;> rfl
  · rfl

end Piece

namespace Binding

def map (f : Char → Char) (b : Binding) : Binding := ⟨b.gap.map f, b.gapAfter.map f⟩

theorem source_map (hf : KeepsClasses f) (b : Binding) : (b.map f).source = b.source.map f := by
  have hq : f '?' = '?' := hf.sign _ (by decide)
  have he : f '=' = '=' := hf.sign _ (by decide)
  simp [source, map, hq, he]

theorem output_map (hf : KeepsClasses f) (b : Binding) : (b.map f).output = b.output.map f := by
  have hs : f ' ' = ' ' := hf.sign _ (by decide)
  simp [output, map, hs]

end Binding

namespace Fault

/-- The fault behind the renamed text. It has as many characters in front of it, and perhaps
another number of bytes. -/
def map (f : Char → Char) (g : Fault) : Fault := ⟨g.problem, g.before.map f⟩

theorem map_behind (f : Char → Char) (text : List Char) (g : Fault) :
    (g.behind text).map f = (g.map f).behind (text.map f) := by
  simp [map, behind]

end Fault

namespace Item

def map (f : Char → Char) : Item → Item
  | piece p => piece (p.map f)
  | native gap body => native (gap.map f) (body.map (Piece.map f))
  | opening gap binding marker =>
    opening (gap.map f) (binding.map (Binding.map f)) (marker.map f)
  | closing => closing

/-- What a reader answers, with all of its text renamed. -/
def mapAnswer {α : Type} (f : Char → Char) (g : α → α) :
    Except Fault (α × List Char) → Except Fault (α × List Char)
  | .ok (a, rest) => .ok (g a, rest.map f)
  | .error h => .error (h.map f)

section Texts

variable (hf : KeepsClasses f)

include hf

/-- Braces and signs are renamed to themselves, so what an item stands for is renamed whole. -/
theorem source_map (i : Item) : (i.map f).source = i.source.map f := by
  have ho : f '{' = '{' := hf.sign _ (by decide)
  have hc : f '}' = '}' := hf.sign _ (by decide)
  cases i with
  | piece p => exact Piece.text_map f p
  | native gap body =>
    simp [source, map, ho, hc, List.flatMap_map, List.map_flatMap]
  | opening gap binding marker =>
    cases binding with
    | none => simp [source, map, ho]
    | some b => simp [source, map, ho, Binding.source_map hf]
  | closing => simp [source, map, hc]

theorem output_map (i : Item) : (i.map f).output = i.output.map f := by
  have hs : f ' ' = ' ' := hf.sign _ (by decide)
  cases i with
  | piece p => exact Piece.text_map f p
  | native gap body => exact source_map hf (.native gap body)
  | opening gap binding marker =>
    cases binding with
    | none => simp [output, map, hs]
    | some b => simp [output, map, hs, Binding.output_map hf]
  | closing => simp [output, map, hs]

end Texts

section Readers

variable (hf : KeepsClasses f)

include hf

/-- The body of a native literal ends at the same closing brace, or fails at the same place. -/
theorem readBody_map (prev : Option Char) (cs : List Char) :
    readBody (prev.map f) (cs.map f) =
      mapAnswer f (List.map (Piece.map f)) (readBody prev cs) := by
  have hclose {c : Char} : f c = '}' ↔ c = '}' := hf.eq_iff (by decide)
  fun_induction readBody prev cs with
  | case1 => rw [List.map_nil, readBody]; rfl
  | case2 prev cs =>
    rw [List.map_cons, hclose.2 rfl, readBody_closing]
    rfl
  | case3 prev c cs hc kind hp =>
    have hp' := Piece.read_map hf prev c cs
    rw [hp] at hp'
    rw [List.map_cons, readBody_of_error (mt hclose.1 hc) hp']
    rfl
  | case4 prev c cs hc p rest hp _ g hb ih =>
    have hp' := Piece.read_map hf prev c cs
    rw [hp] at hp'
    rw [List.map_cons, readBody_of_ok (mt hclose.1 hc) hp', Piece.text_map, List.getLast?_map, ih,
      hb, mapAnswer, mapAnswer, Fault.map_behind]
  | case5 prev c cs hc p rest hp _ body after hb ih =>
    have hp' := Piece.read_map hf prev c cs
    rw [hp] at hp'
    rw [List.map_cons, readBody_of_ok (mt hclose.1 hc) hp', Piece.text_map, List.getLast?_map, ih,
      hb]
    rfl

theorem readMarker_map (gap : List Char) (binding : Option Binding) (cs : List Char) :
    readMarker (gap.map f) (binding.map (Binding.map f)) (cs.map f) =
      Prod.map (map f) (List.map f) (readMarker gap binding cs) := by
  simp [readMarker, map, hf.markerLength_map, List.map_take, List.map_drop]

/-- The five forms that a header can have are told apart by blanks, digits and signs, all of which
are kept. -/
theorem readOpening_map (cs : List Char) :
    readOpening (cs.map f) = mapAnswer f (map f) (readOpening cs) := by
  have ho : f '{' = '{' := hf.sign _ (by decide)
  have hq : f '?' = '?' := hf.sign _ (by decide)
  have he : f '=' = '=' := hf.sign _ (by decide)
  cases header cs with
  | ended hg =>
    rw [readOpening_ended (hf.isGap_map hg), readOpening_ended hg]
    simp [mapAnswer, Fault.map, ho]
  | @native gap d ds hg hd =>
    have hprev : ('{' :: gap.map f).getLast? = ('{' :: gap).getLast?.map f := by
      rw [← List.getLast?_map, List.map_cons, ho]
    have hbody := readBody_map hf ('{' :: gap).getLast? (d :: ds)
    rw [List.map_cons] at hbody
    rw [List.map_append, List.map_cons,
      readOpening_native (hf.isGap_map hg) (by rwa [hf.isDigit]), readOpening_native hg hd, hprev,
      hbody]
    cases readBody ('{' :: gap).getLast? (d :: ds) with
    | error g => simp [mapAnswer, Fault.map_behind, ho]
    | ok r => rfl
  | @clause gap c ds hg hb hd hq' =>
    rw [List.map_append, List.map_cons, readOpening_clause (hf.isGap_map hg) (by rwa [hf.isBlank])
      (by rwa [hf.isDigit]) (mt (hf.eq_iff (by decide)).1 hq'), readOpening_clause hg hb hd hq',
      ← List.map_cons]
    exact congrArg Except.ok (readMarker_map hf gap none (c :: ds))
  | @bound gap gap₁ ds hg h₁ =>
    rw [List.map_append, List.map_cons, List.map_append, List.map_cons, hq, he,
      readOpening_bound (hf.isGap_map hg) (hf.isGap_map h₁), readOpening_bound hg h₁, hf.gap_map,
      hf.dropGap_map]
    exact congrArg Except.ok
      (readMarker_map hf gap (some ⟨gap₁, Text.gap ds⟩) (dropGap ds))
  | @unbound gap gap₁ ds hg h₁ hc =>
    have hc' : ∀ c ∈ (ds.map f).head?, isBlank c = false ∧ c ≠ '=' := by
      intro c hmem
      rw [List.head?_map] at hmem
      obtain ⟨d, hd, rfl⟩ := Option.mem_map.1 hmem
      rw [hf.isBlank, ne_eq, hf.eq_iff (by decide)]
      exact hc d hd
    rw [List.map_append, List.map_cons, List.map_append, hq,
      readOpening_unbound (hf.isGap_map hg) (hf.isGap_map h₁) hc', readOpening_unbound hg h₁ hc]
    simp [mapAnswer, Fault.map, ho, hq]

theorem read_map (prev : Option Char) (c : Char) (cs : List Char) :
    read (prev.map f) (f c) (cs.map f) = mapAnswer f (map f) (read prev c cs) := by
  have ho : f c = '{' ↔ c = '{' := hf.eq_iff (by decide)
  have hc : f c = '}' ↔ c = '}' := hf.eq_iff (by decide)
  simp only [read, ho, hc]
  split
  · exact readOpening_map hf cs
  · split
    · rfl
    · rw [Piece.read_map hf]
      cases Piece.read prev c cs <;> rfl

end Readers

@[simp] theorem levelBehind?_map (f : Char → Char) (level : Nat) (i : Item) :
    (i.map f).levelBehind? level = i.levelBehind? level := by
  cases i <;> rfl

@[simp] theorem opensBrace_map (f : Char → Char) (i : Item) :
    (i.map f).opensBrace = i.opensBrace := by
  cases i <;> rfl

end Item

namespace Reading

/-- The reading of the renamed text: its items, and the fault it stops at. -/
def map (f : Char → Char) (r : Reading) : Reading :=
  ⟨r.items.map (Item.map f), r.fault?.map (Fault.map f)⟩

theorem map_cons (hf : KeepsClasses f) (i : Item) (r : Reading) :
    (r.cons i).map f = (r.map f).cons (i.map f) := by
  have hfault : Fault.map f ∘ Fault.behind i.source =
      Fault.behind (i.map f).source ∘ Fault.map f := by
    funext g
    rw [Function.comp_apply, Function.comp_apply, Fault.map_behind, Item.source_map hf]
  simp only [map, cons, List.map_cons, Option.map_map, hfault]

theorem read_map (hf : KeepsClasses f) (prev : Option Char) (cs : List Char) :
    read (prev.map f) (cs.map f) = (read prev cs).map f := by
  fun_induction read prev cs with
  | case1 => rw [List.map_nil, read_nil]; rfl
  | case2 prev c cs g hi =>
    have hi' := Item.read_map hf prev c cs
    rw [hi] at hi'
    rw [List.map_cons, read_of_error hi']
    rfl
  | case3 prev c cs i rest hi _ ih =>
    have hi' := Item.read_map hf prev c cs
    rw [hi] at hi'
    rw [List.map_cons, read_of_ok hi', map_cons hf, ← ih, Item.source_map hf, List.getLast?_map]

end Reading

/-- The nesting of clauses takes no notice of characters, except for the place of its fault. -/
theorem Nesting.levelBehind_map (hf : KeepsClasses f) (level : Nat) (is : List Item) :
    levelBehind level (is.map (Item.map f)) = (levelBehind level is).mapError (Fault.map f) := by
  induction is generalizing level with
  | nil => rfl
  | cons i is ih =>
    rw [List.map_cons, levelBehind, levelBehind, Item.levelBehind?_map]
    cases i.levelBehind? level with
    | none => rfl
    | some next =>
      dsimp only
      rw [ih]
      cases levelBehind next is with
      | ok => rfl
      | error g =>
        rw [Item.source_map hf]
        exact congrArg Except.error (g.map_behind f i.source).symm

/-- A renamed statement has the renamed items, or the renamed fault. -/
theorem readStatement_map (hf : KeepsClasses f) (cs : List Char) :
    readStatement (cs.map f) =
      ((readStatement cs).map (List.map (Item.map f))).mapError (Fault.map f) := by
  have hread : Reading.read none (cs.map f) = (Reading.read none cs).map f :=
    Reading.read_map hf none cs
  rw [readStatement, readStatement, hread]
  generalize Reading.read none cs = r
  obtain ⟨is, fault⟩ := r
  simp only [Reading.map, Nesting.levelBehind_map hf]
  cases Nesting.levelBehind 0 is with
  | error g => rfl
  | ok level =>
    cases fault with
    | some g => rfl
    | none =>
      by_cases h0 : level = 0
      · subst h0
        rfl
      · simp [Except.mapError, Except.map, h0, Fault.map]

namespace NativeText

def map (f : Char → Char) : NativeText → NativeText
  | submitted sql => submitted (sql.map f)
  | built text => built (text.map f)

/-- A statement that is given back as it is stays so, and a text that was built is built anew. -/
theorem map_ofItems (hf : KeepsClasses f) (sql : String) (is : List Item) :
    (ofItems sql is).map f = ofItems (sql.map f) (is.map (Item.map f)) := by
  have hany : (is.map (Item.map f)).any Item.opensBrace = is.any Item.opensBrace := by
    rw [List.any_map]
    exact congrArg is.any (funext (Item.opensBrace_map f))
  have hout : (is.map (Item.map f)).flatMap Item.output = (is.flatMap Item.output).map f := by
    rw [List.flatMap_map, List.map_flatMap]
    simp only [Item.output_map hf]
  rw [ofItems, ofItems, hany, hout]
  split
  · refine congrArg built (String.toList_inj.1 ?_)
    rw [String.toList_map, String.toList_ofList, String.toList_ofList]
  · rfl

end NativeText

section Answer

variable (hf : KeepsClasses f) {sql : String}

include hf

theorem mem_map_brace : '{' ∈ (sql.map f).toList ↔ '{' ∈ sql.toList := by
  rw [String.toList_map, List.mem_map]
  constructor
  · rintro ⟨c, hc, he⟩
    rwa [(hf.eq_iff (by decide)).1 he] at hc
  · intro h
    exact ⟨'{', h, hf.sign _ (by decide)⟩

/-- A statement that succeeds does so when it is renamed, with the renamed text. -/
theorem nativeText_map_of_ok {escapeProcessing : Bool} {t : NativeText}
    (h : nativeText sql escapeProcessing = .ok t) :
    nativeText (sql.map f) escapeProcessing = .ok (t.map f) := by
  by_cases hproc : escapeProcessing = true ∧ '{' ∈ sql.toList
  · obtain ⟨rfl, hb⟩ := hproc
    rw [nativeText_of_mem hb] at h
    rw [nativeText_of_mem ((mem_map_brace hf).2 hb), String.toList_map, readStatement_map hf]
    cases hr : readStatement sql.toList with
    | error g => rw [hr] at h; cases h
    | ok is =>
      rw [hr] at h
      cases h
      exact congrArg Except.ok (NativeText.map_ofItems hf sql is).symm
  · have hproc' : ¬ (escapeProcessing = true ∧ '{' ∈ (sql.map f).toList) := by
      rwa [mem_map_brace hf]
    rw [nativeText, if_neg (by simpa using hproc)] at h
    cases h
    rw [nativeText, if_neg (by rwa [Bool.and_eq_true, List.contains_iff_mem])]
    rfl

/-- A failing statement has its fault behind some of its text, and so has the renamed one,
behind the same text renamed. -/
theorem nativeText_map_of_error {escapeProcessing : Bool} {e : StatementError}
    (h : nativeText sql escapeProcessing = .error e) :
    ∃ (g : Fault) (rest : List Char), sql.toList = g.before ++ rest ∧ e = g.error ∧
      nativeText (sql.map f) escapeProcessing = .error (g.map f).error := by
  cases escapeProcessing with
  | false => cases h
  | true =>
    obtain ⟨hb, g, hg, rfl⟩ := nativeText_eq_error_iff.1 h
    obtain ⟨rest, hrest, -⟩ := exists_explains hg
    refine ⟨g, rest, hrest, rfl, ?_⟩
    refine nativeText_eq_error_iff.2 ⟨(mem_map_brace hf).2 hb, g.map f, ?_, rfl⟩
    rw [String.toList_map, readStatement_map hf, hg]
    rfl

end Answer

/-- Only the classes of characters matter. A renamed statement succeeds with the renamed native
text, or fails with the same problem behind the same characters, renamed; and what it
answers comes from the statement in this way. Since different characters may get one name, its
native text is that of some `t` and not of every `t` that is renamed alike. -/
theorem nativeText_map (hf : KeepsClasses f) (sql : String) (escapeProcessing : Bool) :
    (∀ t', nativeText (sql.map f) escapeProcessing = .ok t' ↔
        ∃ t, nativeText sql escapeProcessing = .ok t ∧ t' = t.map f) ∧
      ∀ e, nativeText sql escapeProcessing = .error e ↔
        ∃ problem before after, sql.toList = before ++ after ∧
          e = .malformed problem (.point (byteLength before)) before.length ∧
          nativeText (sql.map f) escapeProcessing =
            .error (.malformed problem (.point (byteLength (before.map f))) before.length) := by
  constructor
  · intro t'
    constructor
    · intro h
      cases hsql : nativeText sql escapeProcessing with
      | ok t =>
        rw [nativeText_map_of_ok hf hsql] at h
        exact ⟨t, rfl, (Except.ok.inj h).symm⟩
      | error e =>
        obtain ⟨g, -, -, -, hg⟩ := nativeText_map_of_error hf hsql
        rw [hg] at h
        cases h
    · rintro ⟨t, h, rfl⟩
      exact nativeText_map_of_ok hf h
  · intro e
    constructor
    · intro h
      obtain ⟨g, rest, hrest, rfl, hg⟩ := nativeText_map_of_error hf h
      refine ⟨g.problem, g.before, rest, hrest, rfl, ?_⟩
      rw [hg, Fault.error, Fault.map, List.length_map]
    · rintro ⟨problem, before, after, hsplit, rfl, h⟩
      cases hsql : nativeText sql escapeProcessing with
      | ok t =>
        rw [nativeText_map_of_ok hf hsql] at h
        cases h
      | error e =>
        obtain ⟨g, rest, hrest, rfl, hg⟩ := nativeText_map_of_error hf hsql
        rw [hg, Fault.error, Fault.map, List.length_map] at h
        obtain ⟨hproblem, -, hlength⟩ := StatementError.malformed.inj (Except.error.inj h)
        obtain ⟨rfl, -⟩ := List.append_inj (hrest.symm.trans hsplit) hlength
        rw [Fault.error, hproblem]

theorem isBlank_of_isAlpha {c : Char} (h : c.isAlpha = true) : isBlank c = false := by
  simp only [Char.isAlpha, Char.isUpper, Char.isLower, Bool.or_eq_true, Bool.and_eq_true,
    decide_eq_true_eq, ge_iff_le, UInt32.le_iff_toNat_le] at h
  have hrange : 65 ≤ c.toNat ∧ c.toNat ≤ 90 ∨ 97 ≤ c.toNat ∧ c.toNat ≤ 122 := h
  simp only [isBlank, blankRanges, List.any_cons, List.any_nil, Bool.or_false,
    Bool.or_eq_false_iff, Bool.and_eq_false_iff, decide_eq_false_iff_not]
  omega

/-- Writes letters large, and two other characters with more bytes. -/
def widen (c : Char) : Char :=
  if c = 'é' then '語' else if c = '\t' then '\u3000' else c.toUpper

theorem widen_eq (c : Char) :
    c = 'é' ∧ widen c = '語' ∨ c = '\t' ∧ widen c = '\u3000' ∨
      c.isAlpha = true ∧ widen c = c.toUpper ∨ widen c = c ∧ c.toUpper = c := by
  rw [widen]
  split
  · next h => exact .inl ⟨h, rfl⟩
  split
  · next h => exact .inr (.inl ⟨h, rfl⟩)
  by_cases hl : c.isLower = true
  · exact .inr (.inr (.inl ⟨by rw [Char.isAlpha, hl, Bool.or_true], rfl⟩))
  · have hup := Char.toUpper_eq_of_not_isLower hl
    exact .inr (.inr (.inr ⟨hup, hup⟩))

theorem keepsClasses_widen : KeepsClasses widen where
  sign := by
    have hall : signs.all fun c => widen c == c := by decide
    exact fun c hc => beq_iff_eq.1 (List.all_eq_true.1 hall c hc)
  mem_signs c h := by
    rcases widen_eq c with ⟨rfl, hw⟩ | ⟨rfl, hw⟩ | ⟨hc, hw⟩ | ⟨hw, -⟩ <;> rw [hw] at h
    · revert h; decide
    · revert h; decide
    · have hall : signs.all fun x => !x.isAlpha := by decide
      have hno := List.all_eq_true.1 hall _ h
      rw [Char.isAlpha_toUpper_eq_isAlpha, hc] at hno
      cases hno
    · exact h
  isBlank c := by
    rcases widen_eq c with ⟨rfl, hw⟩ | ⟨rfl, hw⟩ | ⟨hc, hw⟩ | ⟨hw, -⟩ <;> rw [hw]
    · decide
    · decide
    · rw [isBlank_of_isAlpha hc, isBlank_of_isAlpha (by rwa [Char.isAlpha_toUpper_eq_isAlpha])]
  letter c hc := by
    rcases widen_eq c with ⟨rfl, -⟩ | ⟨rfl, -⟩ | ⟨-, hw⟩ | ⟨hw, hup⟩
    · revert hc; decide
    · revert hc; decide
    · exact .inr hw
    · exact .inr (hw.trans hup.symm)
  isAlpha c h := by
    rcases widen_eq c with ⟨rfl, hw⟩ | ⟨rfl, hw⟩ | ⟨hc, -⟩ | ⟨hw, -⟩
    · rw [hw] at h; revert h; decide
    · rw [hw] at h; revert h; decide
    · exact hc
    · rwa [hw] at h

/-- Longer characters move a fault among the bytes only. -/
theorem nativeText_map_widen :
    KeepsClasses widen ∧
      nativeText "語\x7bFN\u3000X\x7d" true = .ok (.built "語   \u3000X ") ∧
      nativeText "é\x7b?\tx\x7d" true = .error (.malformed (.expected "=") ⟨5, 5⟩ 4) := by
  have hk := keepsClasses_widen
  refine ⟨hk, ?_, ?_⟩
  · have h : nativeText "é\x7bfn\tx\x7d" true = .ok (.built "é   \tx ") := by decide +kernel
    have hmap := ((nativeText_map hk _ true).1 _).2 ⟨_, h, rfl⟩
    have hsql : "é\x7bfn\tx\x7d".map widen = "語\x7bFN\u3000X\x7d" :=
      String.toList_inj.1 (by rw [String.toList_map]; decide)
    have hout : "é   \tx ".map widen = "語   \u3000X " :=
      String.toList_inj.1 (by rw [String.toList_map]; decide)
    rw [NativeText.map] at hmap
    rw [hsql, hout] at hmap
    exact hmap
  · have hsql : "é\x7b?\tx\x7d".map widen = "語\x7b?\u3000X\x7d" :=
      String.toList_inj.1 (by rw [String.toList_map]; decide)
    refine ((nativeText_map hk _ true).2 _).2
      ⟨.expected "=", "é\x7b?\t".toList, "x\x7d".toList, ?_, ?_, ?_⟩
    · decide
    · decide
    · rw [hsql]
      decide +kernel

end EscapeClause
