import EscapeClause.Proofs.NativeText
import EscapeClause.Proofs.Tokens

/-! Which statements are accepted. The nesting of the items of a reading is the balance of
their tokens. Main statement: escape processing succeeds exactly on the well-formed
statements, and fails as malformed on all others. -/

namespace EscapeClause

open Grammar

namespace Grammar

/-- Balance from `level` open clauses to `final` open ones. -/
structure Nests (level final : Nat) (ts : List Token) : Prop where
  closings_le : ∀ us, us <+: ts → closings us ≤ level + openings us
  balance : level + openings ts = final + closings ts

theorem balanced_iff_nests {ts : List Token} : Balanced ts ↔ Nests 0 0 ts := by
  constructor
  · intro h
    exact ⟨fun us hu => by have := h.closings_le us hu; omega, by have := h.closings_eq; omega⟩
  · intro h
    exact ⟨fun us hu => by have := h.closings_le us hu; omega, by have := h.balance; omega⟩

theorem nests_nil_iff {level final : Nat} : Nests level final [] ↔ level = final := by
  constructor
  · exact fun h => h.balance
  · rintro rfl
    exact ⟨fun us hu => by rw [List.prefix_nil.1 hu]; exact Nat.zero_le _, rfl⟩

/-- Behind tokens that are balanced up to some level the balance goes on from there. -/
theorem nests_append_iff {level mid final : Nat} {ts us : List Token} (h : Nests level mid ts) :
    Nests level final (ts ++ us) ↔ Nests mid final us := by
  have hb := h.balance
  constructor
  · rintro ⟨hle, hbal⟩
    refine ⟨fun vs hvs => ?_, ?_⟩
    · have := hle (ts ++ vs) ((List.prefix_append_right_inj ts).2 hvs)
      rw [openings_append, closings_append] at this
      omega
    · rw [openings_append, closings_append] at hbal
      omega
  · rintro ⟨hle, hbal⟩
    refine ⟨fun vs hvs => ?_, by rw [openings_append, closings_append]; omega⟩
    obtain ⟨ws, hws⟩ := hvs
    rcases List.append_eq_append_iff.1 hws with ⟨tail, rfl, -⟩ | ⟨tail, rfl, hus⟩
    · exact h.closings_le vs (List.prefix_append vs tail)
    · have := hle tail ⟨ws, hus.symm⟩
      rw [openings_append, closings_append]
      omega

/-- With one token in front, the same holds from the level behind it. -/
theorem nests_cons_iff {level behind final : Nat} {t : Token} {ts : List Token}
    (hl : level + openings [t] = behind + closings [t]) :
    Nests level final (t :: ts) ↔ Nests behind final ts := by
  refine @nests_append_iff _ _ _ [t] _ ⟨fun us hu => ?_, hl⟩
  cases us with
  | nil => exact Nat.zero_le _
  | cons u us =>
    obtain ⟨rfl, hus⟩ := List.cons_prefix_cons.1 hu
    rw [List.prefix_nil.1 hus]
    omega

theorem not_nests_closing {final : Nat} {ts : List Token} : ¬ Nests 0 final (.closing :: ts) := by
  intro h
  have := h.closings_le [.closing] (List.cons_prefix_cons.2 ⟨rfl, List.nil_prefix⟩)
  simp [openings, closings, Token.opens, Token.closes] at this

theorem nests_plain_iff {level final : Nat} (xs : List Char) {ts : List Token} :
    Nests level final (xs.map .plain ++ ts) ↔ Nests level final ts := by
  induction xs with
  | nil => exact Iff.rfl
  | cons x xs ih =>
    rw [List.map_cons, List.cons_append]
    exact (nests_cons_iff rfl).trans ih

theorem nests_tokens_iff {level behind final : Nat} {i : Item} {ts : List Token}
    (h : i.levelBehind? level = some behind) :
    Nests level final (i.tokens ++ ts) ↔ Nests behind final ts := by
  cases i with
  | piece p => cases h; cases p <;> exact nests_cons_iff rfl
  | native gap body => cases h; exact nests_cons_iff rfl
  | opening gap binding marker =>
    cases h
    rw [Item.tokens, List.cons_append]
    exact (nests_cons_iff rfl).trans (nests_plain_iff _)
  | closing =>
    rw [Item.levelBehind?] at h
    split at h
    · cases h
    · cases h
      refine nests_cons_iff ?_
      simp only [openings, closings, Token.opens, Token.closes, List.countP_cons, List.countP_nil,
        Bool.false_eq_true, ↓reduceIte]
      omega

/-- The depth of the items is the balance of their tokens. -/
theorem levelBehind_eq_ok_iff {level final : Nat} {is : List Item} :
    Nesting.levelBehind level is = .ok final ↔ Nests level final (is.flatMap Item.tokens) := by
  induction is generalizing level with
  | nil =>
    rw [Nesting.levelBehind, List.flatMap_nil, Except.ok.injEq, nests_nil_iff]
  | cons i is ih =>
    rw [Nesting.levelBehind_cons_eq_ok_iff, List.flatMap_cons]
    cases hl : i.levelBehind? level with
    | none =>
      have hi : i = .closing ∧ level = 0 := by
        cases i <;> simp_all [Item.levelBehind?]
      obtain ⟨rfl, rfl⟩ := hi
      constructor
      · rintro ⟨_, ⟨⟩, -⟩
      · exact fun h => absurd h not_nests_closing
    | some behind =>
      rw [nests_tokens_iff hl, ← ih]
      simp

/-- What is read of a statement is the sequence of its tokens, which is balanced. -/
theorem readStatement_eq_ok_iff_tokens {cs : List Char} {ts : List Token} :
    (∃ is, readStatement cs = .ok is ∧ ts = is.flatMap Item.tokens) ↔
      Reads [] cs ts [] ∧ Balanced ts := by
  rw [balanced_iff_nests, reads_iff]
  constructor
  · rintro ⟨is, h, rfl⟩
    obtain ⟨hr, hl⟩ := readStatement_eq_ok_iff.1 h
    exact ⟨⟨is, Reading.complete_iff.2 hr, rfl⟩, levelBehind_eq_ok_iff.1 hl⟩
  · rintro ⟨⟨is, hr, rfl⟩, hn⟩
    have hr' := Reading.complete_iff.1 hr
    exact ⟨is, readStatement_eq_ok_iff.2 ⟨hr', levelBehind_eq_ok_iff.2 hn⟩, rfl⟩

end Grammar

section Acceptance

variable {sql : String}

/-- A statement with an opening brace is accepted if and only if it is a sequence of tokens
with balanced clauses. Any other is refused as malformed. -/
theorem nativeText_accepts_iff_balanced (h : '{' ∈ sql.toList) :
    ((∃ t, nativeText sql true = .ok t) ↔ ∃ ts, Reads [] sql.toList ts [] ∧ Balanced ts) ∧
      ((¬ ∃ ts, Reads [] sql.toList ts [] ∧ Balanced ts) →
        ∃ problem span offset, nativeText sql true = .error (.malformed problem span offset)) := by
  rw [nativeText_of_mem h]
  cases hr : readStatement sql.toList with
  | ok is =>
    have hts := readStatement_eq_ok_iff_tokens.1 ⟨is, hr, rfl⟩
    exact ⟨⟨fun _ => ⟨_, hts⟩, fun _ => ⟨_, rfl⟩⟩, fun hn => absurd ⟨_, hts⟩ hn⟩
  | error f =>
    have hno : ¬ ∃ ts, Reads [] sql.toList ts [] ∧ Balanced ts := by
      rintro ⟨ts, hts⟩
      obtain ⟨is, his, -⟩ := readStatement_eq_ok_iff_tokens.2 hts
      rw [hr] at his
      cases his
    refine ⟨⟨?_, fun hts => absurd hts hno⟩, fun _ => ⟨_, _, _, rfl⟩⟩
    rintro ⟨t, ht⟩
    cases ht

/-- A clause with a native literal and with braces in a dollar quote. -/
theorem nativeText_accepts_call :
    '{' ∈ "{fn f({1}, $${}$$)}".toList ∧
      ∃ ts, Reads [] "{fn f({1}, $${}$$)}".toList ts [] ∧ Balanced ts :=
  ⟨by decide, (nativeText_accepts_iff_balanced (by decide)).1.1
    ⟨.built "    f({1}, $${}$$) ", by decide +kernel⟩⟩

end Acceptance

end EscapeClause
