import EscapeClause.Proofs.Acceptance
import EscapeClause.Proofs.Passage

/-! The places of a statement that its reading comes by: between two tokens, behind the gap
of an opening brace, and within a native literal. Each has a number of clauses and native
literals that are open there. Main statement: when the reading comes to the end of the
text, that number of closing braces on a new line makes it well formed, and no other. -/

namespace EscapeClause.Grammar

open Text

/-- Between `before` and `rest` stands the part `body` of a native literal: stretches, and
single characters other than a closing brace. -/
inductive Inside (rest : List Char) : List Char → List Char → Prop where
  | nil (before : List Char) : Inside rest before []
  | stretch {before cs body : List Char} (hs : Stretch before cs (body ++ rest))
      (hb : Inside rest (before ++ cs) body) : Inside rest before (cs ++ body)
  | plain {before body : List Char} {c : Char} (hc : c ≠ '}')
      (hm : Piece.mayStartLiteral c = false) (hb : Inside rest (before ++ [c]) body) :
      Inside rest before (c :: body)

/-- `Reached before after n`: the reading comes to the place between `before` and `after`,
and `n` clauses and native literals are open there. -/
inductive Reached : List Char → List Char → Nat → Prop where
  | token {ts : List Token} {after : List Char} {n : Nat}
      (hr : Reads [] (text ts ++ after) ts after) (hn : Nests 0 n ts) : Reached (text ts) after n
  | brace {ts : List Token} {gap after : List Char} {n : Nat}
      (hr : Reads [] (text ts ++ '{' :: (gap ++ after)) ts ('{' :: (gap ++ after)))
      (hn : Nests 0 n ts) (hg : IsGap gap) (hc : ∀ c ∈ after.head?, isBlank c = false) :
      Reached (text ts ++ '{' :: gap) after (n + 1)
  | native {ts : List Token} {gap body after : List Char} {d : Char} {n : Nat}
      (hr : Reads [] (text ts ++ '{' :: (gap ++ d :: body ++ after)) ts
        ('{' :: (gap ++ d :: body ++ after)))
      (hn : Nests 0 n ts) (hg : IsGap gap) (hd : d.isDigit = true)
      (hb : Inside after (text ts ++ '{' :: gap) (d :: body)) :
      Reached (text ts ++ '{' :: (gap ++ d :: body)) after (n + 1)

section Replace

variable {before cs rest rest' : List Char}

theorem Stretch.replace (h : Stretch before cs rest) (hr : Literal.Replaces rest rest') :
    Stretch before cs rest' := by
  obtain ⟨c, tail, hcs, hm, hs⟩ := stretch_iff.1 h
  have hs' := Literal.skip_replace hs (List.cons_ne_nil c tail) (fun _ => rfl) hr
  obtain ⟨d, cs, rfl⟩ := List.exists_cons_of_ne_nil
    (Literal.passed_ne_nil_of_skip hs (List.cons_ne_nil c tail))
  obtain ⟨rfl, -⟩ := List.cons.inj hcs
  exact stretch_iff.2 ⟨d, cs ++ rest', rfl, hm, hs'⟩

theorem Body.replace {body : List Char} (h : Body rest before body) (rest' : List Char) :
    Body rest' before body := by
  induction h with
  | nil before => exact .nil before
  | @stretch before cs body hs _ ih =>
    refine .stretch (hs.replace (.of_head?_eq ?_)) ih
    cases body <;> rfl
  | plain hc hm _ ih => exact .plain hc hm ih

/-- The part of a native literal that the text ends with becomes a whole one. -/
theorem Inside.body_append_line {body : List Char} (h : Inside [] before body)
    (rest : List Char) : Body rest before (body ++ ['\n']) := by
  induction h with
  | nil before => exact .plain (by decide) (by decide) (.nil _)
  | @stretch before cs body hs _ ih =>
    rw [List.append_assoc]
    refine .stretch (hs.replace ?_) ih
    rw [List.append_nil, List.append_assoc]
    exact (Item.replaces_line body _).toReplaces
  | plain hc hm _ ih => exact .plain hc hm ih

theorem Token.Stands.append_line {t : Token} (h : t.Stands before rest) (more : List Char) :
    t.Stands before (rest ++ '\n' :: more) := by
  cases t with
  | stretch cs => exact Stretch.replace h (Item.replaces_line rest more).toReplaces
  | native gap body =>
    obtain ⟨hg, hd, hb⟩ := h
    exact ⟨hg, hd, hb.replace _⟩
  | opening gap =>
    obtain ⟨hg, c, after, rfl, hb, hd, hq⟩ := h
    refine ⟨hg, c, after ++ '\n' :: more, rfl, hb, hd, fun hc => ?_⟩
    obtain ⟨gap₁, bound, rfl, h₁⟩ := hq hc
    exact ⟨gap₁, bound ++ '\n' :: more, List.append_assoc .., h₁⟩
  | closing => exact h
  | plain c => exact h

/-- The tokens of a text stay the same when a new line follows it. -/
theorem Reads.append_line {ts : List Token} (h : Reads before cs ts rest) (more : List Char) :
    Reads before (cs ++ '\n' :: more) ts (rest ++ '\n' :: more) := by
  induction h with
  | done before rest => exact .done before _
  | token ht _ ih =>
    rw [List.append_assoc]
    exact .token (ht.append_line more) ih

end Replace

section Nests

variable {level mid final : Nat} {ts us : List Token}

theorem nests_closings_iff {k : Nat} :
    Nests level 0 (List.replicate k .closing) ↔ k = level := by
  induction k generalizing level with
  | zero => exact nests_nil_iff.trans eq_comm
  | succ k ih =>
    rw [List.replicate_succ]
    cases level with
    | zero => exact ⟨fun h => absurd h not_nests_closing, fun h => by cases h⟩
    | succ level =>
      have hl : level + 1 + openings [.closing] = level + closings [.closing] := rfl
      rw [nests_cons_iff hl, ih, Nat.add_right_cancel_iff]

theorem reads_closings (before : List Char) (k : Nat) :
    Reads before (List.replicate k '}') (List.replicate k .closing) [] := by
  induction k generalizing before with
  | zero => exact .done before []
  | succ k ih => exact .token (t := .closing) trivial (ih _)

/-- One more token and closing braces behind it balance a text if they are as many as are
open behind the token. -/
theorem exists_reads_closings {cs : List Char} {t : Token} {m : Nat} (hn : Nests 0 mid ts)
    (hl : mid + openings [t] = level + closings [t])
    (hr : Reads [] cs ts (t.text ++ List.replicate m '}'))
    (ht : t.Stands (text ts) (List.replicate m '}')) :
    ∃ us, Reads [] cs us [] ∧ (Balanced us ↔ m = level) := by
  refine ⟨ts ++ t :: List.replicate m .closing, hr.append (.token ht (reads_closings _ m)), ?_⟩
  rw [balanced_iff_nests, nests_append_iff hn, nests_cons_iff hl, nests_closings_iff]

end Nests

/-- Where the text ends, closing braces on a new line balance it if they are as many as are
open there. -/
theorem Reached.exists_reads {cs : List Char} {n k : Nat} (h : Reached cs [] n) (hk : 1 ≤ k) :
    ∃ us, Reads [] (cs ++ '\n' :: List.replicate k '}') us [] ∧ (Balanced us ↔ k = n) := by
  obtain ⟨k, rfl⟩ := Nat.exists_eq_add_one.2 hk
  generalize hend : ([] : List Char) = after at h
  cases h with
  | @token ts _ n hr hn =>
    subst hend
    have hline := hr.append_line (List.replicate (k + 1) '}')
    rw [List.append_nil] at hline
    -- the new line is a token of its own
    have hplain : (Token.plain '\n').Stands (text ts) (List.replicate (k + 1) '}') :=
      ⟨by decide, by decide, by decide⟩
    exact exists_reads_closings (t := .plain '\n') hn rfl hline hplain
  | @brace ts gap _ n hr hn hg hc =>
    subst hend
    have hline := hr.append_line (List.replicate (k + 1) '}')
    -- the new line lengthens the gap, and with the first closing brace the clause is open
    have hopen : (Token.opening (gap ++ ['\n'])).Stands (text ts) (List.replicate (k + 1) '}') :=
      ⟨hg.concat (by decide), '}', _, List.replicate_succ, by decide, by decide,
        fun hq => absurd hq (by decide)⟩
    refine exists_reads_closings hn rfl ?_ hopen
    simpa [Token.text] using hline
  | @native ts gap body _ d n hr hn hg hd hb =>
    subst hend
    have hline := hr.append_line (List.replicate (k + 1) '}')
    -- the new line belongs to the body, which the first closing brace ends
    have hnative : (Token.native gap (d :: body ++ ['\n'])).Stands (text ts)
        (List.replicate k '}') :=
      ⟨hg, ⟨d, rfl, hd⟩, hb.body_append_line _⟩
    rw [Nat.add_right_cancel_iff]
    refine exists_reads_closings hn rfl ?_ hnative
    simpa [Token.text, List.replicate_succ] using hline

end EscapeClause.Grammar
