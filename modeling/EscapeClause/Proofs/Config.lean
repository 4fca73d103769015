import EscapeClause.Config.File
import EscapeClause.Proofs.Json.Record

/-! What a configuration file gives. What reads the text is left open, but for what is relied on
of it: it reads every valid object member by member, passes over members it does not know, and
refuses a field that is no boolean or comes twice. Main statement: only the values of the known
member count, of every object that a file can hold, whatever its other members are. -/

namespace EscapeClause

open Json

/-- The bytes of a text are read as that text. -/
theorem Contents.text_toUTF8 (text : String) : Contents.text (.ok text.toUTF8) = .ok text := by
  have hutf8 : text.toUTF8.IsValidUTF8 := text.isValidUTF8
  simp only [Contents.text, bind, Except.bind, String.fromUTF8?, dif_pos hutf8]
  rfl

/-- What is relied on of a reader of records. `visit name initial members` is what it makes of
the members of an object, once they are read. -/
structure RecordReader.Lawful (read : RecordReader)
    (visit : String → Bool → List (String × Value) → Option Bool) : Prop where
  /-- An object is read as its members, however it is written. -/
  reads : ∀ {name initial text members}, Written (.spaced (.object members)) text.toList →
    (read name initial text).toOption = visit name initial members
  /-- A member that is no field counts for nothing, wherever it stands. -/
  ignores : ∀ {name initial front m behind}, m.1 ≠ name →
    visit name initial (front ++ m :: behind) = visit name initial (front ++ behind)
  /-- A missing field has its initial value. -/
  fills : ∀ {name initial}, visit name initial [] = some initial
  takes : ∀ {name initial b}, visit name initial [(name, .boolean b)] = some b
  refuses : ∀ {name initial v}, (∀ b, v ≠ .boolean b) → visit name initial [(name, v)] = none
  /-- A field comes once. -/
  repeats : ∀ {name initial v w members},
    visit name initial ((name, v) :: (name, w) :: members) = none

namespace RecordReader.Lawful

open Json.Record

variable {read : RecordReader} {visit : String → Bool → List (String × Value) → Option Bool}
  (h : Lawful read visit)

include h

theorem visit_filter (name : String) (initial : Bool) (front members : List (String × Value)) :
    visit name initial (front ++ members) =
      visit name initial (front ++ members.filter (·.1 = name)) := by
  -- what was looked at is kept in front
  induction members generalizing front with
  | nil => rfl
  | cons m members ih =>
    by_cases hm : m.1 = name
    · rw [List.filter_cons_of_pos (by simpa using hm), List.append_cons,
        List.append_cons _ _ (members.filter _)]
      exact ih _
    · rw [List.filter_cons_of_neg (by simpa using hm), h.ignores hm]
      exact ih front

/-- Of the members of an object the values of the field decide. -/
theorem visit_eq (name : String) (initial : Bool) (members : List (String × Value)) :
    visit name initial members = (accepted (valuesOf name members)).map (·.getD initial) := by
  have hfilter : members.filter (·.1 = name) = (valuesOf name members).map (name, ·) := by
    rw [valuesOf, List.map_map]
    refine (List.map_id _).symm.trans (List.map_congr_left fun m hm => ?_)
    obtain rfl : m.1 = name := by simpa using (List.mem_filter.1 hm).2
    rfl
  have hvisit := h.visit_filter name initial [] members
  rw [List.nil_append, List.nil_append, hfilter] at hvisit
  rw [hvisit]
  rcases valuesOf name members with _ | ⟨v, _ | ⟨w, vs⟩⟩
  · exact h.fills
  · cases v with
    | boolean b => exact h.takes
    | _ => exact h.refuses (by simp)
  · rw [accepted_of_two_le (by simp)]
    exact h.repeats

end RecordReader.Lawful

/-- The reader of this library can be relied on. -/
theorem Json.Record.lawful_read :
    RecordReader.Lawful Json.Record.read fun name initial members =>
      (Json.Record.accepted (Json.Record.valuesOf name members)).map (·.getD initial) where
  reads := fun h => Json.Record.read_of_written _ _ h
  ignores := by
    intro name initial front m behind hm
    have hnone : Json.Record.valuesOf name [m] = [] :=
      Json.Record.valuesOf_eq_nil (by simpa using hm)
    rw [← List.singleton_append, Json.Record.valuesOf_append, Json.Record.valuesOf_append, hnone,
      List.nil_append, ← Json.Record.valuesOf_append]
  fills := rfl
  takes := by
    intro name initial b
    rw [Json.Record.valuesOf_eq_self]
    rfl
  refuses := by
    intro name initial v hv
    rw [Json.Record.valuesOf_eq_self, Json.Record.accepted_of_mem List.mem_cons_self hv]
    rfl
  repeats := by
    intro name initial v w members
    rw [Json.Record.accepted_of_two_le (by simp [Json.Record.valuesOf])]
    rfl

namespace Config

open Json.Record

section Files

variable {read : RecordReader} {visit : String → Bool → List (String × Value) → Option Bool}
  {path text : String} {members : List (String × Value)}

theorem loadBy_toUTF8 (read : RecordReader) (path text : String) :
    loadBy read path (.ok text.toUTF8) =
      ((read fieldName true text).map Config.mk).mapError (.config path) := by
  rw [loadBy, Contents.text_toUTF8]
  dsimp only
  cases read fieldName true text <;> rfl

/-- A file that holds a text is refused for what the text is. -/
theorem loadBy_of_refused (h : (loadBy read path (.ok text.toUTF8)).toOption = none) :
    ∃ e, loadBy read path (.ok text.toUTF8) = .error (.config path e) := by
  rw [loadBy_toUTF8] at h ⊢
  cases hj : read fieldName true text with
  | error e => exact ⟨e, rfl⟩
  | ok c =>
    rw [hj] at h
    cases h

theorem loadBy_of_written (hread : read.Lawful visit) (path : String)
    (h : Written (.spaced (.object members)) text.toList) :
    (loadBy read path (.ok text.toUTF8)).toOption =
      (accepted (valuesOf fieldName members)).map fun found => ⟨found.getD true⟩ := by
  have hvalue := (@RecordReader.Lawful.reads _ _ hread fieldName true _ _ h).trans
    (hread.visit_eq fieldName true members)
  rw [loadBy_toUTF8, ← Function.comp_def Config.mk, ← Option.map_map, ← hvalue]
  cases read fieldName true text <;> rfl

theorem loadBy_of_accepted {found : Option Bool} (hread : read.Lawful visit) (path : String)
    (h : Written (.spaced (.object members)) text.toList)
    (ha : accepted (valuesOf fieldName members) = some found) :
    loadBy read path (.ok text.toUTF8) = .ok ⟨found.getD true⟩ :=
  toOption_eq_some_iff.1 (by rw [loadBy_of_written hread path h, ha]; rfl)

end Files

/-- A file that holds an object gives the default where the known member is missing and its
value where it is one boolean, and is refused otherwise. Nothing else in the object counts. -/
theorem load_settled_by_known_member {read : RecordReader}
    {visit : String → Bool → List (String × Value) → Option Bool} (hread : read.Lawful visit)
    (path : String) {members : List (String × Value)} {text : String}
    (h : Written (.spaced (.object members)) text.toList) :
    ((∀ m ∈ members, m.1 ≠ "escape_processing") →
        loadBy read path (.ok text.toUTF8) = .ok ⟨true⟩) ∧
      (∀ b, valuesOf "escape_processing" members = [.boolean b] →
        loadBy read path (.ok text.toUTF8) = .ok ⟨b⟩) ∧
      ((∃ v ∈ valuesOf "escape_processing" members, ∀ b, v ≠ .boolean b) ∨
          2 ≤ (valuesOf "escape_processing" members).length →
        ∃ e, loadBy read path (.ok text.toUTF8) = .error (.config path e)) ∧
      ∀ (members' : List (String × Value)) (text' : String),
        Written (.spaced (.object members')) text'.toList →
          valuesOf "escape_processing" members' = valuesOf "escape_processing" members →
            (loadBy read path (.ok text'.toUTF8)).toOption =
              (loadBy read path (.ok text.toUTF8)).toOption := by
  refine ⟨fun hmissing => ?_, fun b hb => ?_, fun hrefused => ?_, fun members' text' h' hk => ?_⟩
  · exact loadBy_of_accepted hread path h (congrArg accepted (valuesOf_eq_nil hmissing))
  · exact loadBy_of_accepted hread path h (congrArg accepted hb)
  · have hnone : accepted (valuesOf fieldName members) = none := by
      rcases hrefused with ⟨v, hv, hb⟩ | htwo
      · exact accepted_of_mem hv hb
      · exact accepted_of_two_le htwo
    exact loadBy_of_refused (by rw [loadBy_of_written hread path h, hnone]; rfl)
  · have hvalues : valuesOf fieldName members' = valuesOf fieldName members := hk
    rw [loadBy_of_written hread path h', loadBy_of_written hread path h, hvalues]

/-- An escaped spelling of the key counts, and the nested value in front of it does not. -/
theorem load_settled_by_known_member_nested :
    load "session.json"
      (.ok "\x7b\"a\": [1, \x7b\"b\":null\x7d],\"\\u0065scape_processing\" :false\x7d ".toUTF8) =
        .ok ⟨false⟩ := by
  have hblank : IsSpace [' '] := by simp [IsSpace]
  have hnone : IsSpace [] := by simp [IsSpace]
  have hnumber : IsNumeral ['1'] :=
    @IsNumeral.mk [] ['1'] [] [] (.inl rfl) ⟨by simp, by simp⟩ (by simp) .none .none
  have ha : Spells "a".toList "a".toList := spells_self (by simp)
  have hb : Spells "b".toList "b".toList := spells_self (by simp)
  have hkey : Spells fieldName.toList
      ('\\' :: 'u' :: (['0', '0', '6', '5'] ++ "scape_processing".toList)) := by
    have hname : fieldName.toList = 'e' :: "scape_processing".toList := by decide +kernel
    have hunit : SpellsUnit 'e'.toNat ['0', '0', '6', '5'] :=
      ⟨[0, 0, 6, 5], rfl, by simp [IsHexDigit, Nat.digitChar], by decide⟩
    rw [hname]
    exact .unit hunit (spells_self (by simp))
  have hinner : Written (.spaced (.object [("b", .null)])) _ :=
    .spaced hblank (.object (.member (.field hnone hb hnone (.spaced hnone .null hnone)))) hnone
  have hlist : Written (.spaced (.list [_, _])) _ :=
    .spaced hblank (.list (.items (.spaced hnone (.number hnumber) hnone) (.item hinner))) hnone
  have hobject : Written (.spaced (.object [_, _])) _ :=
    .spaced hnone (.object (.members (.field hnone ha hnone hlist)
      (.member (.field hnone hkey hblank (.spaced hnone .no hnone))))) hblank
  have htext : Written (.spaced (.object
      [("a", .list [.number ['1'], .object [("b", .null)]]), (fieldName, .boolean false)]))
      "\x7b\"a\": [1, \x7b\"b\":null\x7d],\"\\u0065scape_processing\" :false\x7d ".toList := by
    convert hobject using 1
    decide +kernel
  exact (load_settled_by_known_member lawful_read "session.json" htext).2.1 false rfl

end Config

end EscapeClause
