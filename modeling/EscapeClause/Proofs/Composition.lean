import EscapeClause.Proofs.NativeText
import EscapeClause.Proofs.Passage
import Mathlib.Data.List.Basic
import Mathlib.Data.List.TakeWhile

/-! Statements put together from others. Behind a statement that is accepted and a new line
the reading starts afresh, at whatever level it started. Main statements: the native text
of two statements on lines of their own is made up of theirs, and a clause around a
statement leaves its native text as it is. -/

namespace EscapeClause

open Text

theorem readFrom_inert {xs : List Char} (hx : ∀ c ∈ xs, Inert c) (level : Nat)
    (prev : Option Char) (cs : List Char) :
    readFrom level prev (xs ++ cs) =
      prefixed (xs.map (.piece ∘ .plain)) (readFrom level (xs.getLast?.or prev) cs) := by
  have hlevel : Nesting.levelBehind level (xs.map (.piece ∘ .plain)) = .ok level := by
    refine Nesting.levelBehind_of_forall fun i hi => ?_
    obtain ⟨c, -, rfl⟩ := List.mem_map.1 hi
    rfl
  rw [readFrom_of_passes (.inert hx prev cs) hlevel, Item.flatMap_plain fun _ => rfl]

/-- Behind a blank a text is read as it is at the start. -/
theorem readFrom_append_blank {xs : List Char} (hx : ∀ c ∈ xs, Inert c) {c : Char}
    (hc : isBlank c = true) (level : Nat) (prev : Option Char) (cs : List Char) :
    readFrom level prev (xs ++ c :: cs) =
      prefixed ((xs ++ [c]).map (.piece ∘ .plain)) (readFrom level none cs) := by
  have hinert : ∀ d ∈ xs ++ [c], Inert d := by
    intro d hd
    rcases List.mem_append.1 hd with hd | hd
    · exact hx d hd
    · rw [List.mem_singleton.1 hd]
      exact inert_of_isBlank hc
  rw [← List.singleton_append, ← List.append_assoc, readFrom_inert hinert,
    List.getLast?_append_of_ne_nil xs (List.cons_ne_nil c [])]
  have hsame : (some c).all isBlank = (none : Option Char).all isBlank := hc
  exact congrArg _ (readFrom_congr hsame level cs)

/-- Behind an accepted text and a new line the reading starts afresh. -/
theorem readFrom_append_line {a : List Char} {is : List Item} (h : readStatement a = .ok is)
    (level : Nat) (b : List Char) :
    readFrom level none (a ++ '\n' :: b) =
      prefixed (is ++ [.piece (.plain '\n')]) (readFrom level none b) := by
  obtain ⟨hr, hl⟩ := readStatement_eq_ok_iff.1 h
  have hpass := Reading.complete_iff_passes.1 (Reading.complete_iff.2 hr)
  have hopens (i : Item) (hi : is.getLast? = some i) (ho : i.opensClause = true) :
      ([] : List Char) ≠ [] := by
    rw [Nesting.not_opensClause_of_getLast? hl hi] at ho
    cases ho
  have hline := hpass.replace (fun _ => rfl) (Item.replaces_line [] b) hopens
  rw [List.nil_append, ← List.append_nil (is.flatMap Item.source), ← hpass.eq_append] at hline
  have hlevel := Nesting.levelBehind_add hl level
  rw [Nat.zero_add] at hlevel
  have hblank := @readFrom_append_blank [] (List.forall_mem_nil _) '\n' (by decide) level
  rw [readFrom_of_passes hline hlevel, ← List.nil_append ('\n' :: b), hblank, prefixed_prefixed]
  rfl

/-- The place of a fault behind a line lies the length of the line further back. -/
theorem Fault.error_behind_line (f : Fault) (a : String) :
    (f.behind (a.toList ++ ['\n'])).error =
      .malformed f.problem
        ⟨byteLength f.before + (byteLength a.toList + 1),
          byteLength f.before + (byteLength a.toList + 1)⟩
        (f.before.length + (a.length + 1)) := by
  have hbytes : byteLength (a.toList ++ ['\n']) = byteLength a.toList + 1 := by
    rw [byteLength_append]
    rfl
  have hchars : (a.toList ++ ['\n']).length = a.length + 1 := by
    rw [List.length_append, String.length_toList]
    rfl
  rw [error_behind, hbytes, hchars]
  simp only [Span.point, Nat.add_comm]

section Lines

variable {a b : String} {ta : NativeText}

/-- Behind an accepted statement and a new line another statement comes out as it does
alone, and fails as it does alone, only further back. -/
theorem nativeText_append_line (ha : '{' ∈ a.toList) (hb : '{' ∈ b.toList)
    (h : nativeText a true = .ok ta) :
    (∀ tb, nativeText b true = .ok tb →
      ∃ t, nativeText (a ++ "\n" ++ b) true = .ok t ∧ t.text = ta.text ++ "\n" ++ tb.text) ∧
    ∀ e, nativeText b true = .error e →
      ∃ problem span offset, e = .malformed problem span offset ∧
        nativeText (a ++ "\n" ++ b) true =
          .error (.malformed problem
            ⟨span.start + (byteLength a.toList + 1), span.stop + (byteLength a.toList + 1)⟩
            (offset + (a.length + 1))) := by
  have hline : (a ++ "\n" ++ b).toList = a.toList ++ '\n' :: b.toList := by simp
  have hmem : '{' ∈ (a ++ "\n" ++ b).toList := by
    rw [hline]
    exact List.mem_append_left _ ha
  obtain ⟨is, his, hout⟩ := (nativeText_text_iff ha).1 ⟨ta, h, rfl⟩
  have hread := readFrom_append_line his 0 b.toList
  rw [← readStatement_eq, ← readStatement_eq, ← hline] at hread
  refine ⟨fun tb htb => ?_, fun e he => ?_⟩
  · obtain ⟨js, hjs, hout'⟩ := (nativeText_text_iff hb).1 ⟨tb, htb, rfl⟩
    rw [hjs] at hread
    obtain ⟨t, ht, htext⟩ := (nativeText_text_iff hmem).2 ⟨_, hread, rfl⟩
    refine ⟨t, ht, String.toList_injective ?_⟩
    rw [htext, List.flatMap_append, List.flatMap_append, hout, hout']
    simp [Item.output, Item.source, Piece.text]
  · obtain ⟨-, f, hf, rfl⟩ := nativeText_eq_error_iff.1 he
    refine ⟨f.problem, Span.point (byteLength f.before), f.before.length, rfl, ?_⟩
    have hsource :
        (is ++ [Item.piece (.plain '\n')]).flatMap Item.source = a.toList ++ ['\n'] := by
      rw [List.flatMap_append, flatMap_source_of_readStatement his]
      rfl
    rw [hf, prefixed, hsource] at hread
    exact nativeText_eq_error_iff.2 ⟨hmem, _, hread, (f.error_behind_line a).symm⟩

theorem nativeText_append_line_dollars :
    '{' ∈ "{fn f()} é -- {}".toList ∧ '{' ∈ "$${}$$ {? x}".toList ∧
      nativeText "{fn f()} é -- {}" true = .ok (.built "    f()  é -- {}") ∧
      nativeText "{fn f()} é -- {}\n$${}$$ {? x}" true =
        .error (.malformed (.expected "=") ⟨28, 28⟩ 27) := by
  have h : nativeText "{fn f()} é -- {}" true = .ok (.built "    f()  é -- {}") := by decide +kernel
  have he : nativeText "$${}$$ {? x}" true = .error (.malformed (.expected "=") ⟨10, 10⟩ 10) := by
    decide +kernel
  refine ⟨by decide, by decide, h, ?_⟩
  obtain ⟨_, _, _, ⟨⟩, ht⟩ := (nativeText_append_line (by decide) (by decide) h).2 _ he
  exact ht

end Lines

namespace Keyword

/-- The word is the keyword in any mix of upper and lower case. -/
def Spells (k : Keyword) (word : String) : Prop :=
  word.toList.map Char.toLower = k.spelling.toList

instance (k : Keyword) (word : String) : Decidable (k.Spells word) :=
  inferInstanceAs (Decidable (_ = _))

/-- What is left of a keyword in the native text: a marking word is blanked. -/
def residue (word : String) : String :=
  if Marks word.toList then String.ofList (List.replicate word.length ' ') else word

theorem toNat_of_spells {k : Keyword} {word : String} (h : k.Spells word) {c : Char}
    (hc : c ∈ word.toList) : 65 ≤ c.toNat ∧ c.toNat ≤ 122 := by
  have hall : k.spelling.toList.all fun x => 97 ≤ x.toNat && x.toNat ≤ 122 := by
    cases k <;> decide
  have hmem : c.toLower ∈ k.spelling.toList := h ▸ List.mem_map_of_mem hc
  have hl := List.all_eq_true.1 hall _ hmem
  simp only [Bool.and_eq_true, decide_eq_true_eq] at hl
  by_cases hu : 'A'.val ≤ c.val ∧ c.val ≤ 'Z'.val
  · have h₁ : 65 ≤ c.toNat := UInt32.le_iff_toNat_le.1 hu.1
    have h₂ : c.toNat ≤ 90 := UInt32.le_iff_toNat_le.1 hu.2
    omega
  · have hsame : c.toLower = c := dif_neg hu
    rw [hsame] at hl
    omega

end Keyword

section Letters

variable {c : Char} (h : 65 ≤ c.toNat ∧ c.toNat ≤ 122)

include h

theorem inert_of_letter : Inert c := by
  have hall : specials.all fun x => x.toNat < 65 || 122 < x.toNat := by decide
  intro hs
  have hc := List.all_eq_true.1 hall c hs
  simp only [Bool.or_eq_true, decide_eq_true_eq] at hc
  omega

theorem isBlank_of_letter : isBlank c = false := by
  simp only [isBlank, blankRanges, List.any_cons, List.any_nil, Bool.or_false,
    Bool.or_eq_false_iff, Bool.and_eq_false_iff, decide_eq_false_iff_not]
  omega

theorem isDigit_of_letter : c.isDigit = false := by
  have hl : ¬ c.toNat ≤ 57 := by omega
  simp only [Char.isDigit, Bool.and_eq_false_iff, decide_eq_false_iff_not]
  exact .inr fun hu => hl (UInt32.le_iff_toNat_le.1 hu)

end Letters

section Clause

variable {k : Keyword} {word : String}

/-- The opening of a clause with a keyword takes the keyword if it only marks the clause. -/
theorem exists_opening_of_spells (h : k.Spells word) (rest : List Char) :
    ∃ marker kept, word.toList = marker ++ kept ∧
      (Keyword.residue word).toList = List.replicate marker.length ' ' ++ kept ∧
      Item.read none '{' (word.toList ++ ' ' :: rest) =
        .ok (.opening [] none marker, kept ++ ' ' :: rest) := by
  have hletter {c : Char} (hc : c ∈ word.toList) := Keyword.toNat_of_spells h hc
  have hne : word.toList ≠ [] := by
    intro hnil
    rw [Keyword.Spells, hnil] at h
    cases k <;> cases h
  obtain ⟨c, cs, hcs⟩ := List.exists_cons_of_ne_nil hne
  have hc := hletter (hcs ▸ List.mem_cons_self)
  have hquestion : c ≠ '?' := by
    rintro rfl
    exact absurd hc.1 (by decide)
  have ho : Item.Opened [] none (word.toList ++ ' ' :: rest) := by
    rw [hcs]
    exact .clause (List.forall_mem_nil _) (isBlank_of_letter hc) (isDigit_of_letter hc) hquestion
  have hword : Text.word (word.toList ++ ' ' :: rest) = word.toList := by
    rw [word_append_of_isBlank (by decide)]
    exact List.takeWhile_eq_self_iff.2 fun d hd => by simp [isBlank_of_letter (hletter hd)]
  have hread {kept : List Char}
      (ht : word.toList ++ ' ' :: rest = Item.marker (word.toList ++ ' ' :: rest) ++ kept) :
      Item.read none '{' (word.toList ++ ' ' :: rest) =
        .ok (.opening [] none (Item.marker (word.toList ++ ' ' :: rest)), kept) :=
    Item.read_eq_ok_iff.2 (.opening ho ht)
  rw [Item.marker, hword] at hread
  by_cases hm : Keyword.Marks word.toList
  · simp only [if_pos hm] at hread
    refine ⟨word.toList, [], (List.append_nil _).symm, ?_, hread rfl⟩
    rw [Keyword.residue, if_pos hm, String.toList_ofList, String.length_toList, List.append_nil]
  · simp only [if_neg hm] at hread
    refine ⟨[], word.toList, rfl, ?_, hread rfl⟩
    rw [Keyword.residue, if_neg hm]
    rfl

/-- A clause around an accepted text is accepted, and only its own marks are blanked. -/
theorem readStatement_clause (h : k.Spells word) {a : List Char} {is : List Item}
    (ha : readStatement a = .ok is) :
    ∃ js, readStatement ('{' :: (word.toList ++ ' ' :: (a ++ ['\n', '}']))) = .ok js ∧
      js.flatMap Item.output =
        ' ' :: ((Keyword.residue word).toList ++
          ' ' :: (is.flatMap Item.output ++ ['\n', ' '])) := by
  obtain ⟨marker, kept, hword, hresidue, hopen⟩ :=
    exists_opening_of_spells h (a ++ ['\n', '}'])
  have hkept : ∀ c ∈ kept, Inert c := fun c hc =>
    inert_of_letter (Keyword.toNat_of_spells h (hword ▸ List.mem_append_right _ hc))
  have hclose : readFrom 1 none ['}'] = .ok [.closing] := by
    rw [readFrom_of_ok (i := .closing) rfl rfl, readFrom_nil]
    rfl
  have hinner := readFrom_append_line ha 1 ['}']
  rw [hclose] at hinner
  rw [readStatement_eq, readFrom_of_ok hopen rfl, readFrom_append_blank hkept (by decide), hinner]
  refine ⟨_, rfl, ?_⟩
  have hplain := Item.flatMap_plain (f := Item.output) (fun _ => rfl) kept
  simp [Item.output, Item.source, Piece.text, hplain, hresidue]

/-- A clause with the keyword `word` around a statement, closed on a line of its own. -/
def clause (word body : String) : String := "\x7b" ++ word ++ " " ++ body ++ "\n\x7d"

/-- The native text of a clause around a statement with the native text `body`. -/
def clauseText (word body : String) : String :=
  " " ++ Keyword.residue word ++ " " ++ body ++ "\n "

theorem exists_nativeText_clause (h : k.Spells word) {a : String} {ta : NativeText}
    (hb : '{' ∈ a.toList) (ha : nativeText a true = .ok ta) :
    ∃ t, nativeText (clause word a) true = .ok t ∧ t.text = clauseText word ta.text := by
  have htext : (clause word a).toList =
      '{' :: (word.toList ++ ' ' :: (a.toList ++ ['\n', '}'])) := by
    simp [clause]
  have hmem : '{' ∈ (clause word a).toList := by
    rw [htext]
    exact List.mem_cons_self
  obtain ⟨is, his, hout⟩ := (nativeText_text_iff hb).1 ⟨ta, ha, rfl⟩
  obtain ⟨js, hjs, hclause⟩ := readStatement_clause h his
  rw [← htext] at hjs
  obtain ⟨t, ht, hjout⟩ := (nativeText_text_iff hmem).2 ⟨js, hjs, rfl⟩
  refine ⟨t, ht, String.toList_injective ?_⟩
  rw [hjout, hclause, hout]
  simp [clauseText]

/-- The native text of a clause around a statement is the native text of the statement
between the blanks of the clause, and so for any number of clauses one around the other. -/
theorem nativeText_clauses {a : String} {ta : NativeText} (hb : '{' ∈ a.toList)
    (h : nativeText a true = .ok ta) :
    (∀ k word, Keyword.Spells k word →
      ∃ t, nativeText ("\x7b" ++ word ++ " " ++ a ++ "\n\x7d") true = .ok t ∧
        t.text = " " ++ Keyword.residue word ++ " " ++ ta.text ++ "\n ") ∧
    ∀ words : List String, (∀ word ∈ words, ∃ k, Keyword.Spells k word) →
      ∃ t, nativeText (words.foldr clause a) true = .ok t ∧
        t.text = words.foldr clauseText ta.text := by
  refine ⟨fun k word hk => exists_nativeText_clause hk hb h, fun words hwords => ?_⟩
  induction words with
  | nil => exact ⟨ta, h, rfl⟩
  | cons word words ih =>
    obtain ⟨k, hk⟩ := hwords word List.mem_cons_self
    obtain ⟨t, ht, htext⟩ := ih fun w hw => hwords w (List.mem_cons_of_mem word hw)
    have hmem : '{' ∈ (words.foldr clause a).toList := by
      cases words with
      | nil => exact hb
      | cons w ws => simp [clause]
    obtain ⟨t', ht', htext'⟩ := exists_nativeText_clause hk hmem ht
    exact ⟨t', ht', by rw [htext', htext]; rfl⟩

theorem nativeText_clauses_params_call :
    '{' ∈ "$${}$$ {1} -- {}".toList ∧
      nativeText "$${}$$ {1} -- {}" true = .ok (.built "$${}$$ {1} -- {}") ∧
      ∃ t, nativeText "\x7bPaRams \x7bCall $${}$$ {1} -- {}\n\x7d\n\x7d" true = .ok t ∧
        t.text = "         Call $${}$$ {1} -- {}\n \n " := by
  have h : nativeText "$${}$$ {1} -- {}" true = .ok (.built "$${}$$ {1} -- {}") := by
    decide +kernel
  refine ⟨by decide, h, ?_⟩
  exact (nativeText_clauses (by decide) h).2 ["PaRams", "Call"] fun word hword => by
    rcases List.mem_cons.1 hword with rfl | hword
    · exact ⟨.parameters, by decide⟩
    · rw [List.mem_singleton.1 hword]
      exact ⟨.procedureCall, by decide⟩

end Clause

end EscapeClause
