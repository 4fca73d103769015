import EscapeClause.Json.Value
import EscapeClause.Proofs.Json.Number
import EscapeClause.Proofs.Json.Quoted
import Mathlib.Data.List.DropRight

/-! How a value is written, nested to any depth and with blanks between its tokens. Main
statement: a written value is passed over as a whole, up to blanks behind it. -/

namespace EscapeClause.Json

/-- A value. A number stands for itself as it is written. -/
inductive Value where
  | null
  | boolean (b : Bool)
  | number (numeral : List Char)
  | string (text : String)
  | list (items : List Value)
  | object (members : List (String × Value))

/-- Blanks that may stand between two tokens. -/
def IsSpace (cs : List Char) : Prop := ∀ c ∈ cs, c = ' ' ∨ c = '\n' ∨ c = '\t' ∨ c = '\r'

/-- What a part of a text can be: a value, alone or with blanks around it, what stands between
the brackets of a list, a member of an object, or what stands between the braces. -/
inductive Part where
  | value (v : Value)
  | spaced (v : Value)
  | items (vs : List Value)
  | member (key : String) (v : Value)
  | members (ms : List (String × Value))

/-- `Written part cs`: the text `cs` is `part`. -/
inductive Written : Part → List Char → Prop where
  | null : Written (.value .null) ['n', 'u', 'l', 'l']
  | yes : Written (.value (.boolean true)) ['t', 'r', 'u', 'e']
  | no : Written (.value (.boolean false)) ['f', 'a', 'l', 's', 'e']
  | number {cs : List Char} (h : IsNumeral cs) : Written (.value (.number cs)) cs
  | string {text : String} {body : List Char} (h : Spells text.toList body) :
      Written (.value (.string text)) ('"' :: (body ++ ['"']))
  | emptyList {g : List Char} (hg : IsSpace g) : Written (.value (.list [])) ('[' :: (g ++ [']']))
  | list {vs : List Value} {cs : List Char} (h : Written (.items vs) cs) :
      Written (.value (.list vs)) ('[' :: (cs ++ [']']))
  | emptyObject {g : List Char} (hg : IsSpace g) :
      Written (.value (.object [])) ('{' :: (g ++ ['}']))
  | object {ms : List (String × Value)} {cs : List Char} (h : Written (.members ms) cs) :
      Written (.value (.object ms)) ('{' :: (cs ++ ['}']))
  | spaced {v : Value} {g cs g' : List Char} (hg : IsSpace g) (h : Written (.value v) cs)
      (hg' : IsSpace g') : Written (.spaced v) (g ++ (cs ++ g'))
  | item {v : Value} {cs : List Char} (h : Written (.spaced v) cs) : Written (.items [v]) cs
  | items {v : Value} {vs : List Value} {cs ds : List Char} (h : Written (.spaced v) cs)
      (hs : Written (.items vs) ds) : Written (.items (v :: vs)) (cs ++ ',' :: ds)
  | field {key : String} {v : Value} {g body g' cs : List Char} (hg : IsSpace g)
      (hk : Spells key.toList body) (hg' : IsSpace g') (h : Written (.spaced v) cs) :
      Written (.member key v) (g ++ '"' :: (body ++ '"' :: (g' ++ ':' :: cs)))
  | member {key : String} {v : Value} {cs : List Char} (h : Written (.member key v) cs) :
      Written (.members [(key, v)]) cs
  | members {key : String} {v : Value} {ms : List (String × Value)} {cs ds : List Char}
      (h : Written (.member key v) cs) (hs : Written (.members ms) ds) :
      Written (.members ((key, v) :: ms)) (cs ++ ',' :: ds)

section Blanks

variable {g cs rest : List Char}

theorem isBlank_of_mem (hg : IsSpace g) : ∀ c ∈ g, isBlank c = true := by
  intro c hc
  rcases hg c hc with rfl | rfl | rfl | rfl <;> rfl

theorem dropBlanks_append (hg : IsSpace g) (cs : List Char) :
    dropBlanks (g ++ cs) = dropBlanks cs :=
  List.dropWhile_append_of_pos (isBlank_of_mem hg)

theorem dropBlanks_cons {c : Char} (hc : isBlank c = false) (cs : List Char) :
    dropBlanks (c :: cs) = c :: cs :=
  List.dropWhile_cons_of_neg (by simp [hc])

theorem dropBlanks_space (hg : IsSpace g) : dropBlanks g = [] := by
  simpa [dropBlanks] using dropBlanks_append hg []

@[simp] theorem dropBlanks_dropBlanks (cs : List Char) :
    dropBlanks (dropBlanks cs) = dropBlanks cs :=
  List.dropWhile_idempotent isBlank cs

theorem endsNumber_append (hg : IsSpace g) (hr : EndsNumber rest) : EndsNumber (g ++ rest) := by
  cases g with
  | nil => exact hr
  | cons c g =>
    rintro x ⟨⟩
    rcases hg c List.mem_cons_self with rfl | rfl | rfl | rfl <;> decide

end Blanks

theorem ne_of_digit {c x : Char} (hc : c = '-' ∨ c.isDigit = true)
    (hx : ¬(x = '-' ∨ x.isDigit = true)) : c ≠ x := by
  rintro rfl
  exact hx hc

theorem isBlank_of_digit {c : Char} (hc : c = '-' ∨ c.isDigit = true) : isBlank c = false := by
  have hne {x : Char} (hx : ¬(x = '-' ∨ x.isDigit = true)) : (c == x) = false :=
    beq_false_of_ne (ne_of_digit hc hx)
  rw [isBlank, hne (by decide), hne (by decide), hne (by decide), hne (by decide)]
  rfl

/-- Behind blanks, no part of a text begins with a bracket that closes. -/
theorem Written.exists_dropBlanks_eq {part : Part} {cs : List Char} (h : Written part cs) :
    ∀ rest, ∃ c tail, dropBlanks (cs ++ rest) = c :: tail ∧ c ≠ ']' ∧ c ≠ '}' := by
  induction h with
  | number h =>
    intro rest
    obtain ⟨c, tail, rfl, hc⟩ := h.exists_cons
    exact ⟨c, _, dropBlanks_cons (isBlank_of_digit hc) _, ne_of_digit hc (by decide),
      ne_of_digit hc (by decide)⟩
  | spaced hg _ _ ih =>
    intro rest
    simpa only [List.append_assoc, dropBlanks_append hg] using ih _
  | item _ ih => exact ih
  | items _ _ ih =>
    intro rest
    simpa only [List.append_assoc] using ih _
  | field hg =>
    intro rest
    simp only [List.append_assoc, dropBlanks_append hg]
    exact ⟨_, _, rfl, by decide⟩
  | member _ ih => exact ih
  | members _ _ ih =>
    intro rest
    simpa only [List.append_assoc] using ih _
  | _ => exact fun rest => ⟨_, _, rfl, by decide⟩

/-! ### The steps of passing over a value -/

/-- Goes on with what is awaited, or is done. -/
def resume (a : Option Awaited) (rest : List Char) : Except Fault (List Char) :=
  match a with
  | none => .ok rest
  | some a => skipFrom a rest

/-- Passes over what stands between two commas, and over the ends of all open brackets. -/
def skipInside (b : Bracket) (brackets : List Bracket) (cs : List Char) :
    Except Fault (List Char) := do
  let (a, rest) ← Awaited.readInside b brackets cs
  resume a rest

section Steps

open Awaited

variable {b : Bracket} {brackets : List Bracket} {shape : Shape} {c : Char}
  {cs g rest : List Char}

theorem skipFrom_eq (a : Awaited) (cs : List Char) :
    skipFrom a cs = a.read cs >>= fun r => resume r.1 r.2 := by
  rw [skipFrom]
  split
  · next h => simp only [h]; rfl
  · next h => simp only [h]; rfl
  · next h => simp only [h]; rfl

theorem skipInside_list (brackets : List Bracket) (cs : List Char) :
    skipInside .list brackets cs = skipFrom (.value (.list :: brackets)) cs :=
  (skipFrom_eq (.value (.list :: brackets)) cs).symm

theorem skipFrom_value (hc : isBlank c = false)
    (h : readShape .passing (c :: cs) = .ok (shape, rest)) :
    skipFrom (.value brackets) (c :: cs) = resume (behindShape brackets shape) rest := by
  rw [skipFrom_eq, Awaited.read, readValue, dropBlanks_cons hc, h]
  rfl

theorem skipFrom_value_append (hg : IsSpace g) (cs : List Char) :
    skipFrom (.value brackets) (g ++ cs) = skipFrom (.value brackets) cs := by
  rw [skipFrom_eq, skipFrom_eq, Awaited.read, Awaited.read, readValue, readValue,
    dropBlanks_append hg]

theorem readInside_dropBlanks (b : Bracket) (brackets : List Bracket) (cs : List Char) :
    readInside b brackets (dropBlanks cs) = readInside b brackets cs := by
  cases b <;> simp only [readInside, readValue, skipKey, openKey, dropBlanks_dropBlanks]

theorem isBlank_closer (b : Bracket) : isBlank b.closer = false := by
  cases b <;> decide

theorem skipFrom_first_closer (hg : IsSpace g) (b : Bracket) :
    skipFrom (.first b brackets) (g ++ b.closer :: rest) = resume (behindValue brackets) rest := by
  rw [skipFrom_eq, Awaited.read, dropBlanks_append hg, dropBlanks_cons (isBlank_closer b)]
  simp [bind, Except.bind]

theorem skipFrom_first_inside (b : Bracket) (h : dropBlanks cs = c :: rest) (hc : c ≠ b.closer) :
    skipFrom (.first b brackets) cs = skipInside b brackets cs := by
  rw [skipInside, ← readInside_dropBlanks, h, skipFrom_eq, Awaited.read, h]
  simp only [if_neg hc]

theorem skipFrom_next_closer (hg : IsSpace g) (b : Bracket) :
    skipFrom (.next b brackets) (g ++ b.closer :: rest) = resume (behindValue brackets) rest := by
  rw [skipFrom_eq, Awaited.read, dropBlanks_append hg, dropBlanks_cons (isBlank_closer b)]
  simp [bind, Except.bind]

theorem skipFrom_next_comma (hg : IsSpace g) (b : Bracket) :
    skipFrom (.next b brackets) (g ++ ',' :: cs) = skipInside b brackets cs := by
  have hc : ',' ≠ b.closer := by cases b <;> decide
  rw [skipFrom_eq, Awaited.read, dropBlanks_append hg, dropBlanks_cons (by decide)]
  simp only [if_neg hc, if_true]
  rfl

end Steps

section Shapes

variable {cs rest : List Char}

theorem readShape_string {text body : List Char} (h : Spells text body) (rest : List Char) :
    readShape .passing ('"' :: (body ++ '"' :: rest)) = .ok (.string, rest) := by
  simp [readShape, Care.string, skipString_of_spells h, Shape.before, bind, Except.bind, pure,
    Except.pure]

/-- What a numeral begins with begins no other value. -/
theorem readShape_of_digit {care : Care} {c : Char} (hc : c = '-' ∨ c.isDigit = true) :
    readShape care (c :: cs) = Shape.number.before (care.number (c :: cs)) := by
  have hne {x : Char} (hx : ¬(x = '-' ∨ x.isDigit = true)) : c ≠ x := ne_of_digit hc hx
  rw [readShape, if_neg (hne (by decide)), if_neg (hne (by decide)), if_neg (hne (by decide)),
    if_neg (hne (by decide)), if_neg (hne (by decide)), if_neg (hne (by decide)), if_pos hc]

theorem readShape_number (h : IsNumeral cs) (hr : EndsNumber rest) :
    readShape .passing (cs ++ rest) = .ok (.number, rest) := by
  obtain ⟨n, hn⟩ := exists_readNumber_eq h hr .invalidNumber
  obtain ⟨c, tail, rfl, hc⟩ := h.exists_cons
  rw [List.cons_append] at hn ⊢
  rw [readShape_of_digit hc, Care.number, hn]
  rfl

theorem skipColon_append {g : List Char} (hg : IsSpace g) (rest : List Char) :
    skipColon (g ++ ':' :: rest) = .ok rest := by
  rw [skipColon, dropBlanks_append hg, dropBlanks_cons (by decide)]
  rfl

theorem openKey_append {g : List Char} (hg : IsSpace g) (inside : Unfinished) (rest : List Char) :
    openKey inside (g ++ '"' :: rest) = .ok rest := by
  rw [openKey, dropBlanks_append hg, dropBlanks_cons (by decide)]
  rfl

theorem skipKey_append {g g' text body : List Char} (hg : IsSpace g) (hk : Spells text body)
    (hg' : IsSpace g') (rest : List Char) :
    skipKey (g ++ '"' :: (body ++ '"' :: (g' ++ ':' :: rest))) = .ok rest := by
  simp only [skipKey, openKey_append hg, skipString_of_spells hk, skipColon_append hg', bind,
    Except.bind]

end Shapes

/-! ### Whole values -/

def Bracket.shape : Bracket → Shape
  | list => .list
  | object => .object

open Awaited

/-- How each part of a text is passed over, whatever brackets are open around it. A list or an
object is passed over with what closes it, and blanks behind a value are left. -/
def Passes : Part → List Char → Prop
  | .value _, cs => ∀ brackets rest, EndsNumber rest →
      skipFrom (.value brackets) (cs ++ rest) = resume (behindValue brackets) rest
  | .spaced _, cs => ∀ brackets rest, EndsNumber rest → ∃ g, IsSpace g ∧
      skipFrom (.value brackets) (cs ++ rest) = resume (behindValue brackets) (g ++ rest)
  | .items _, cs => ∀ brackets rest,
      skipInside .list brackets (cs ++ Bracket.list.closer :: rest) =
        resume (behindValue brackets) rest
  | .member .., cs => ∀ brackets rest, EndsNumber rest → ∃ g, IsSpace g ∧
      skipInside .object brackets (cs ++ rest) = skipFrom (.next .object brackets) (g ++ rest)
  | .members _, cs => ∀ brackets rest,
      skipInside .object brackets (cs ++ Bracket.object.closer :: rest) =
        resume (behindValue brackets) rest

theorem endsNumber_comma (rest : List Char) : EndsNumber (',' :: rest) := by
  rintro x ⟨⟩
  decide

theorem endsNumber_closer (b : Bracket) (rest : List Char) : EndsNumber (b.closer :: rest) := by
  rintro x ⟨⟩
  cases b <;> decide

theorem passes_of_scalar {v : Value} {shape : Shape} {c : Char} {cs : List Char}
    (hc : isBlank c = false)
    (h : ∀ rest, readShape .passing (c :: (cs ++ rest)) = .ok (shape, rest))
    (hs : ∀ brackets, behindShape brackets shape = behindValue brackets) :
    Passes (.value v) (c :: cs) := by
  intro brackets rest _
  rw [List.cons_append, skipFrom_value hc (h rest), hs]

theorem passes_of_bracket {v : Value} {c : Char} {cs : List Char} (b : Bracket)
    (hc : isBlank c = false)
    (h : ∀ rest, readShape .passing (c :: rest) = .ok (b.shape, rest))
    (hs : ∀ brackets rest, skipFrom (.first b brackets) (cs ++ b.closer :: rest) =
      resume (behindValue brackets) rest) :
    Passes (.value v) (c :: (cs ++ [b.closer])) := by
  intro brackets rest _
  have hfirst : behindShape brackets b.shape = some (.first b brackets) := by cases b <;> rfl
  simp only [List.cons_append, List.append_assoc, List.nil_append]
  rw [skipFrom_value hc (h _), hfirst]
  exact hs brackets rest

/-- Every part of a text is passed over as a whole. -/
theorem passes_of_written {part : Part} {cs : List Char} (h : Written part cs) :
    Passes part cs := by
  -- No case needs how deep it stands: `Passes` speaks of all brackets around a part.
  induction h with
  | null => exact passes_of_scalar rfl (fun _ => rfl) fun _ => rfl
  | yes => exact passes_of_scalar rfl (fun _ => rfl) fun _ => rfl
  | no => exact passes_of_scalar rfl (fun _ => rfl) fun _ => rfl
  | number h =>
    intro brackets rest hr
    have hshape := readShape_number h hr
    obtain ⟨c, tail, rfl, hc⟩ := h.exists_cons
    exact skipFrom_value (isBlank_of_digit hc) hshape
  | string h => exact passes_of_scalar rfl (by simpa using readShape_string h) fun _ => rfl
  | emptyList hg =>
    exact passes_of_bracket .list rfl (fun _ => rfl) fun _ _ => skipFrom_first_closer hg .list
  | list h ih =>
    refine passes_of_bracket .list rfl (fun _ => rfl) fun brackets rest => ?_
    obtain ⟨c, tail, hdrop, hc, -⟩ := h.exists_dropBlanks_eq (Bracket.list.closer :: rest)
    exact (skipFrom_first_inside .list hdrop hc).trans (ih brackets rest)
  | emptyObject hg =>
    exact passes_of_bracket .object rfl (fun _ => rfl) fun _ _ => skipFrom_first_closer hg .object
  | object h ih =>
    refine passes_of_bracket .object rfl (fun _ => rfl) fun brackets rest => ?_
    obtain ⟨c, tail, hdrop, -, hc⟩ := h.exists_dropBlanks_eq (Bracket.object.closer :: rest)
    exact (skipFrom_first_inside .object hdrop hc).trans (ih brackets rest)
  | @spaced v g cs g' hg _ hg' ih =>
    intro brackets rest hr
    refine ⟨g', hg', ?_⟩
    simp only [List.append_assoc]
    rw [skipFrom_value_append hg, ih _ _ (endsNumber_append hg' hr)]
  | item _ ih =>
    intro brackets rest
    obtain ⟨g, hg, hpass⟩ := ih (.list :: brackets) _ (endsNumber_closer .list rest)
    rw [skipInside_list, hpass]
    exact skipFrom_next_closer hg .list
  | items _ _ ih ihs =>
    intro brackets rest
    obtain ⟨g, hg, hpass⟩ := ih (.list :: brackets) _ (endsNumber_comma _)
    rw [List.append_assoc, List.cons_append, skipInside_list, hpass]
    exact (skipFrom_next_comma hg .list).trans (ihs brackets rest)
  | field hg hk hg' _ ih =>
    intro brackets rest hr
    obtain ⟨g, hspace, hpass⟩ := ih (.object :: brackets) rest hr
    refine ⟨g, hspace, ?_⟩
    simp only [List.append_assoc, List.cons_append]
    rw [skipInside, readInside, skipKey_append hg hk hg']
    exact hpass
  | member _ ih =>
    intro brackets rest
    obtain ⟨g, hg, hpass⟩ := ih brackets _ (endsNumber_closer .object rest)
    rw [hpass]
    exact skipFrom_next_closer hg .object
  | members _ _ ih ihs =>
    intro brackets rest
    obtain ⟨g, hg, hpass⟩ := ih brackets _ (endsNumber_comma _)
    rw [List.append_assoc, List.cons_append, hpass]
    exact (skipFrom_next_comma hg .object).trans (ihs brackets rest)

/-- A value is passed over up to blanks behind it, however deep it nests. -/
theorem skipValue_of_written {v : Value} {cs rest : List Char} (h : Written (.spaced v) cs)
    (hr : EndsNumber rest) : ∃ g, IsSpace g ∧ skipValue (cs ++ rest) = .ok (g ++ rest) :=
  passes_of_written h [] rest hr

end EscapeClause.Json
