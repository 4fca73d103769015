/-! The keywords of escape clauses. Three of them only mark a clause, and their letters
are blanked; the others belong to the native text. -/

namespace EscapeClause

inductive Keyword where
  | scalarFunction
  | likeEscape
  | procedureCall
  | outerJoin
  | timestamp
  | time
  | date
  | parameters
  deriving DecidableEq, Repr

namespace Keyword

def spelling : Keyword → String
  | scalarFunction => "fn"
  | likeEscape => "escape"
  | procedureCall => "call"
  | outerJoin => "oj"
  | timestamp => "ts"
  | time => "t"
  | date => "d"
  | parameters => "params"

def all : List Keyword :=
  [scalarFunction, likeEscape, procedureCall, outerJoin, timestamp, time, date, parameters]

/-- The keyword that a whole word spells. Case does not matter for ASCII letters, and
no other character is a letter here. -/
def ofWord? (word : List Char) : Option Keyword :=
  all.find? fun k => k.spelling.toList == word.map Char.toLower

/-- How many letters of the keyword are blanked: all of them or none. -/
def blankLength : Keyword → Nat
  | scalarFunction | outerJoin => 2
  | parameters => 6
  | _ => 0

theorem blankLength_le (k : Keyword) : k.blankLength ≤ 6 := by cases k <;> decide

theorem mem_all (k : Keyword) : k ∈ all := by cases k <;> decide

theorem map_toLower_of_ofWord? {word : List Char} {k : Keyword} (h : ofWord? word = some k) :
    word.map Char.toLower = k.spelling.toList := by
  rw [ofWord?] at h
  have hk := List.find?_some h
  exact (beq_iff_eq.1 hk).symm

theorem length_of_ofWord? {word : List Char} {k : Keyword} (h : ofWord? word = some k) :
    word.length = k.spelling.length := by
  have hl := congrArg List.length (map_toLower_of_ofWord? h)
  rwa [List.length_map, String.length_toList] at hl

theorem length_spelling_le (k : Keyword) : k.spelling.length ≤ 6 := by cases k <;> decide

/-- A word that is too long for a keyword need not be read to its end. -/
theorem ofWord?_take (word : List Char) : ofWord? (word.take 7) = ofWord? word := by
  by_cases hw : word.length ≤ 6
  · rw [List.take_of_length_le (by omega)]
  · have hn {w : List Char} (hl : 6 < w.length) : ofWord? w = none := by
      rw [Option.eq_none_iff_forall_ne_some]
      intro k hk
      have h₁ := length_of_ofWord? hk
      have h₂ := length_spelling_le k
      omega
    rw [hn (by rw [List.length_take]; omega), hn (by omega)]

end Keyword

end EscapeClause
