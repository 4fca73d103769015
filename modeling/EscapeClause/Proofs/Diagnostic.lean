import EscapeClause.Proofs.Cause
import EscapeClause.Proofs.Rewriter
import EscapeClause.Session.Error

/-! Where a diagnostic points. The caret stands under the character of the fault, which is
never a blank, or behind the line if the statement has ended. Main statement: the line and
the column agree with the place of the fault in bytes and in characters, and a diagnostic
can be cut out of the bytes of any statement, whatever an error says about its place. -/

namespace EscapeClause

open Text

namespace Text

/-- The line `begun ++ rest`, between `lead` and `tail`. It begins behind a line feed, or
with the text, and `begun` has no other. What ends it is the first line end in `rest` or
behind it, or the end of the text. -/
structure IsLine (lead begun rest tail : List Char) : Prop where
  begins : lead = [] ∨ lead.getLast? = some '\n'
  not_mem_begun : '\n' ∉ begun
  isLineEnd_rest : ∀ c ∈ rest, isLineEnd c = false
  isLineEnd_tail : ∀ c ∈ tail.head?, isLineEnd c = true

/-- What stands before the begun line. -/
def lead (before : List Char) : List Char :=
  (before.reverse.dropWhile fun c => c != '\n').reverse

theorem lead_append_begunLine (before : List Char) : lead before ++ begunLine before = before := by
  rw [lead, begunLine, ← List.reverse_append, List.takeWhile_append_dropWhile,
    List.reverse_reverse]

theorem lead_eq_nil_or (before : List Char) :
    lead before = [] ∨ (lead before).getLast? = some '\n' := by
  have hhead := List.head?_dropWhile_not (fun c => c != '\n') before.reverse
  rw [lead, List.reverse_eq_nil_iff, List.getLast?_reverse]
  cases hd : before.reverse.dropWhile fun c => c != '\n' with
  | nil => exact .inl rfl
  | cons c cs =>
    rw [hd] at hhead
    exact .inr (by simpa using hhead)

theorem not_mem_begunLine (before : List Char) : '\n' ∉ begunLine before := by
  intro h
  rw [begunLine, List.mem_reverse] at h
  simpa using List.all_eq_true.1 List.all_takeWhile _ h

theorem isLine (before after : List Char) :
    IsLine (lead before) (begunLine before) (lineRest after) (dropLine after) where
  begins := lead_eq_nil_or before
  not_mem_begun := not_mem_begunLine before
  isLineEnd_rest _ := isLineEnd_of_mem_lineRest
  isLineEnd_tail _ := isLineEnd_of_head?_dropLine

section Positions

/-- The byte position of the first character with a property. -/
def firstPos? (p : Char → Bool) : List Char → Option Nat
  | [] => none
  | c :: cs => if p c then some 0 else (firstPos? p cs).map fun i => c.utf8Size + i

/-- The byte position of the last character with a property. -/
def lastPos? (p : Char → Bool) : List Char → Option Nat
  | [] => none
  | c :: cs =>
    match lastPos? p cs with
    | some i => some (c.utf8Size + i)
    | none => if p c then some 0 else none

variable {p : Char → Bool} {cs ds : List Char}

theorem firstPos?_append (h : ∀ c ∈ cs, p c = false) :
    firstPos? p (cs ++ ds) = (firstPos? p ds).map fun i => byteLength cs + i := by
  induction cs with
  | nil => simp
  | cons c cs ih =>
    rw [List.cons_append, firstPos?, h c List.mem_cons_self,
      ih fun d hd => h d (List.mem_cons_of_mem c hd)]
    simp [Function.comp_def, Nat.add_assoc]

theorem lastPos?_eq_none (h : ∀ c ∈ cs, p c = false) : lastPos? p cs = none := by
  induction cs with
  | nil => rfl
  | cons c cs ih =>
    rw [lastPos?, ih fun d hd => h d (List.mem_cons_of_mem c hd), h c List.mem_cons_self]
    rfl

theorem lastPos?_append_cons {c : Char} (hc : p c = true) (h : ∀ d ∈ ds, p d = false) :
    lastPos? p (cs ++ c :: ds) = some (byteLength cs) := by
  induction cs with
  | nil => rw [List.nil_append, lastPos?, lastPos?_eq_none h, hc]; rfl
  | cons d cs ih => rw [List.cons_append, lastPos?, ih]; rfl

variable {lead begun rest tail : List Char}

theorem IsLine.start_eq (h : IsLine lead begun rest tail) :
    (lastPos? (fun c => c == '\n') (lead ++ begun)).elim 0 (fun i => i + 1) =
      byteLength lead := by
  have hbegun : ∀ c ∈ begun, (c == '\n') = false := by
    intro c hc
    rw [beq_eq_false_iff_ne]
    rintro rfl
    exact h.not_mem_begun hc
  rcases h.begins with rfl | hlead
  · rw [List.nil_append, lastPos?_eq_none hbegun]
    rfl
  · obtain ⟨cs, rfl⟩ := List.getLast?_eq_some_iff.1 hlead
    rw [List.append_assoc, List.singleton_append, lastPos?_append_cons rfl hbegun,
      byteLength_append]
    rfl

theorem IsLine.stop_eq (h : IsLine lead begun rest tail) (before : List Char) :
    (firstPos? isLineEnd (rest ++ tail)).elim (byteLength (before ++ (rest ++ tail)))
      (fun i => byteLength before + i) = byteLength (before ++ rest) := by
  rw [firstPos?_append h.isLineEnd_rest]
  cases tail with
  | nil => rw [List.append_nil]; rfl
  | cons c tail => simp [firstPos?, h.isLineEnd_tail c rfl]

end Positions

/-- A byte position within a character. -/
def IsInside (cs : List Char) (p : Nat) : Prop :=
  ∃ before c after, cs = before ++ c :: after ∧
    byteLength before < p ∧ p < byteLength before + c.utf8Size

theorem locate_ne_boundary {cs : List Char} {p : Nat} (h : byteLength cs < p ∨ IsInside cs p)
    (before after : List Char) : locate p cs ≠ .boundary before after := by
  rw [Ne, locate_eq_boundary_iff]
  rintro ⟨hcs, hp⟩
  rcases h with h | ⟨before', x, after', rfl, hlt, hgt⟩
  · rw [hcs, byteLength_append] at h
    omega
  · exact not_isBoundary_of_inside hlt hgt ⟨before, after, hcs, hp⟩

end Text

namespace StatementError

/-- The diagnostic of a statement, cut out of its bytes. There is none if a cut is out of
bounds or within a character. -/
def cutDiagnostic? (e : StatementError) (sql : String) : Option String :=
  let message := (SessionError.statement sql e).message
  let cs := sql.toList
  match e.span? with
  | none => some message
  | some span =>
    match slice? cs 0 span.start with
    | none => some message
    | some before => do
      let start := (lastPos? (fun c => c == '\n') before).elim 0 fun i => i + 1
      let after ← slice? cs span.start (byteLength cs)
      let stop := (firstPos? isLineEnd after).elim (byteLength cs) fun i => span.start + i
      let begun ← slice? before start (byteLength before)
      let line ← slice? cs start stop
      return message ++ "\n" ++
        String.ofList (line ++ '\n' :: List.replicate begun.length ' ' ++ ['^'])

variable {sql : String} {e : StatementError} {span : Span} {lead begun rest tail : List Char}

/-- The cuts that make a diagnostic are made at the ends of the line and at the place. -/
theorem cutDiagnostic?_of_isLine (hl : IsLine lead begun rest tail)
    (hsql : sql.toList = lead ++ begun ++ (rest ++ tail)) (he : e.span? = some span)
    (hspan : span.start = byteLength (lead ++ begun)) :
    e.cutDiagnostic? sql = some ((SessionError.statement sql e).message ++ "\n" ++
      String.ofList (begun ++ rest ++ '\n' :: List.replicate begun.length ' ' ++ ['^'])) := by
  have hbefore : slice? (lead ++ begun ++ (rest ++ tail)) 0 (byteLength (lead ++ begun)) =
      some (lead ++ begun) := slice?_append [] (lead ++ begun) (rest ++ tail)
  have hafter : slice? (lead ++ begun ++ (rest ++ tail)) (byteLength (lead ++ begun))
      (byteLength (lead ++ begun ++ (rest ++ tail))) = some (rest ++ tail) := by
    simpa using slice?_append (lead ++ begun) (rest ++ tail) []
  have hbegun : slice? (lead ++ begun) (byteLength lead) (byteLength (lead ++ begun)) =
      some begun := by
    simpa using slice?_append lead begun []
  have hline : slice? (lead ++ begun ++ (rest ++ tail)) (byteLength lead)
      (byteLength (lead ++ begun ++ rest)) = some (begun ++ rest) := by
    simpa using slice?_append lead (begun ++ rest) tail
  unfold cutDiagnostic?
  simp only [he, hsql, hspan, hbefore, hl.start_eq, hafter, hbegun, hl.stop_eq, hline,
    Option.bind_eq_bind, Option.bind_some, Option.pure_def]

theorem cutDiagnostic?_of_sides?_eq_none (h : (SessionError.statement sql e).sides? = none) :
    e.cutDiagnostic? sql = some (SessionError.statement sql e).message := by
  unfold cutDiagnostic?
  cases he : e.span? with
  | none => rfl
  | some span =>
    have hslice : slice? sql.toList 0 span.start = none := by
      unfold slice?
      split
      · next before after hl =>
        have hsides := SessionError.sides?_statement_eq_some_iff.2
          ⟨span, he, locate_eq_boundary_iff.1 hl⟩
        cases h.symm.trans hsides
      · rfl
    simp only [hslice]

end StatementError

namespace SessionError

variable {sql : String} {e : StatementError} {before after : List Char}

theorem diagnostic_of_sides?_eq_some (h : (statement sql e).sides? = some (before, after)) :
    (statement sql e).diagnostic =
      (statement sql e).message ++ "\n" ++ String.ofList (pointer before after) := by
  unfold diagnostic
  rw [h]

theorem diagnostic_of_sides?_eq_none (h : (statement sql e).sides? = none) :
    (statement sql e).diagnostic = (statement sql e).message := by
  unfold diagnostic
  rw [h]

/-- The diagnostic of a statement is what its cuts give. -/
theorem cutDiagnostic?_eq (sql : String) (e : StatementError) :
    e.cutDiagnostic? sql = some (statement sql e).diagnostic := by
  cases hs : (statement sql e).sides? with
  | none => rw [StatementError.cutDiagnostic?_of_sides?_eq_none hs, diagnostic_of_sides?_eq_none hs]
  | some sides =>
    obtain ⟨before, after⟩ := sides
    obtain ⟨span, he, hsql, hspan⟩ := sides?_statement_eq_some_iff.1 hs
    rw [← lead_append_begunLine before] at hsql hspan
    rw [← lineRest_append_dropLine after] at hsql
    rw [StatementError.cutDiagnostic?_of_isLine (isLine before after) hsql he hspan,
      diagnostic_of_sides?_eq_some hs]
    rfl

/-- An error without a place in the text is not shown in it. -/
theorem diagnostic_of_no_place (h : ∀ span ∈ e.span?, byteLength sql.toList < span.start ∨
    IsInside sql.toList span.start) :
    (statement sql e).diagnostic = (statement sql e).message := by
  apply diagnostic_of_sides?_eq_none
  rw [Option.eq_none_iff_forall_ne_some]
  rintro ⟨before, after⟩ hs
  obtain ⟨span, he, hsql, hspan⟩ := sides?_statement_eq_some_iff.1 hs
  exact locate_ne_boundary (h span he) before after (locate_eq_boundary_iff.2 ⟨hsql, hspan⟩)

end SessionError

section Fault

variable {cs rest : List Char} {n : Nat} {prev : Option Char} {f : Fault}

theorem isBlank_head?_of_unclosed {kind : Enclosed} (h : Literal.Unclosed prev cs kind) :
    ∀ c ∈ cs.head?, isBlank c = false := by
  intro c hc
  obtain ⟨tail, rfl⟩ := List.head?_eq_some_iff.1 hc
  refine Bool.eq_false_iff.2 fun hblank => ?_
  have hm := Piece.mayStartLiteral_of_unclosed h
  rw [(inert_iff.1 (inert_of_isBlank hblank)).1] at hm
  cases hm

/-- Where reading stops, no blank is left to pass over. -/
theorem Stops.isBlank_head? (h : Stops n prev rest f) :
    ∃ after, rest = f.before ++ after ∧ ∀ c ∈ after.head?, isBlank c = false := by
  have hend : ∀ c ∈ ([] : List Char).head?, isBlank c = false := by
    intro c hc
    cases hc
  cases h with
  | ended hl => exact ⟨[], rfl, hend⟩
  | unopened hl cs =>
    refine ⟨'}' :: cs, rfl, ?_⟩
    intro c hc
    cases hc
    decide
  | item hf =>
    cases hf with
    | piece ho hc hp =>
      exact ⟨_, rfl, isBlank_head?_of_unclosed (Piece.read_eq_error_iff.1 hp)⟩
    | ended hg => exact ⟨[], (List.append_nil _).symm, hend⟩
    | @native gap ds d g hg hd hb =>
      obtain ⟨after, hds, -, hafter⟩ := Grammar.inside_of_readBody hb
      refine ⟨after, by rw [hds]; exact (List.append_assoc ('{' :: gap) g.before after).symm, ?_⟩
      rcases hafter with ⟨rfl, -⟩ | ⟨kind, prev, -, hu⟩
      · exact hend
      · exact isBlank_head?_of_unclosed hu
    | @unbound gap gap₁ cs hg h₁ hc => exact ⟨cs, by simp, fun c hcs => (hc c hcs).1⟩

/-- A fault stands at a character that is no blank, or at the end. -/
theorem exists_after_of_readStatement (h : readStatement cs = .error f) :
    ∃ after, cs = f.before ++ after ∧ ∀ c ∈ after.head?, isBlank c = false := by
  obtain ⟨is, rest, final, g, hp, -, hs, rfl⟩ := exists_stops h
  obtain ⟨after, rfl, hafter⟩ := hs.isBlank_head?
  exact ⟨after, by rw [hp.eq_append, Fault.behind, List.append_assoc], hafter⟩

theorem isLineEnd_of_not_isBlank {c : Char} (h : isBlank c = false) : isLineEnd c = false := by
  rw [isLineEnd, Bool.or_eq_false_iff, beq_eq_false_iff_ne, beq_eq_false_iff_ne]
  constructor
  · rintro rfl
    cases h
  · rintro rfl
    cases h

end Fault

/-- The diagnostic of a faulty statement shows the line of the fault and points at the fault
in it, with the column that the message gives if the text before the line is counted in.
Any diagnostic can be cut out of its statement, and without a place in it there is nothing
to show. -/
theorem diagnostic_points_at_fault (sql : String) :
    (∀ e, nativeText sql true = .error e →
      ∃ lead begun rest tail, sql.toList = lead ++ begun ++ (rest ++ tail) ∧
        IsLine lead begun rest tail ∧
        e.span? = some (Span.point (byteLength (lead ++ begun))) ∧
        e.offset? = some (lead.length + begun.length) ∧
        (SessionError.statement sql e).diagnostic =
          (SessionError.statement sql e).message ++ "\n" ++
            String.ofList (begun ++ rest ++ '\n' :: List.replicate begun.length ' ' ++ ['^']) ∧
        (∀ c ∈ (rest ++ tail).head?,
          begun.length < (begun ++ rest).length ∧ (begun ++ rest)[begun.length]? = some c) ∧
        (rest ++ tail = [] → begun.length = (begun ++ rest).length)) ∧
      ∀ e, e.cutDiagnostic? sql = some (SessionError.statement sql e).diagnostic ∧
        ((∀ span ∈ e.span?, byteLength sql.toList < span.start ∨
            IsInside sql.toList span.start) →
          (SessionError.statement sql e).diagnostic = (SessionError.statement sql e).message) := by
  refine ⟨?_, fun e => ⟨SessionError.cutDiagnostic?_eq sql e, SessionError.diagnostic_of_no_place⟩⟩
  intro e he
  obtain ⟨-, f, hf, rfl⟩ := nativeText_eq_error_iff.1 he
  obtain ⟨after, hsql, hafter⟩ := exists_after_of_readStatement hf
  have hbefore := lead_append_begunLine f.before
  have hrest := lineRest_append_dropLine after
  have hsides : (SessionError.statement sql f.error).sides? = some (f.before, after) :=
    SessionError.sides?_statement_eq_some_iff.2 ⟨_, rfl, hsql, rfl⟩
  refine ⟨lead f.before, begunLine f.before, lineRest after, dropLine after, ?_,
    isLine f.before after, ?_, ?_, SessionError.diagnostic_of_sides?_eq_some hsides, ?_, ?_⟩
  · rw [hbefore, hrest, hsql]
  · rw [hbefore]
    rfl
  · rw [← List.length_append, hbefore]
    rfl
  · rw [hrest]
    intro c hc
    obtain ⟨tail, rfl⟩ := List.head?_eq_some_iff.1 hc
    have hline : lineRest (c :: tail) = c :: lineRest tail := by
      rw [lineRest, List.takeWhile_cons_of_pos]
      · rfl
      · simp [isLineEnd_of_not_isBlank (hafter c rfl)]
    simp [hline]
  · rw [hrest]
    rintro rfl
    simp [lineRest]

/-- Behind a line feed, a carriage return and two characters of more than one byte. -/
theorem diagnostic_points_at_fault_second_line :
    nativeText "é\n\ré {? x}\ny" true = .error (.malformed (.expected "=") ⟨10, 10⟩ 8) ∧
      (SessionError.statement "é\n\ré {? x}\ny"
        (.malformed (.expected "=") ⟨10, 10⟩ 8)).diagnostic =
        "Failed to prepare statement: Syntax error: expected \"=\" at position 8\n" ++
          "\ré {? x}\n      ^" := by
  have h : nativeText "é\n\ré {? x}\ny" true =
      .error (.malformed (.expected "=") ⟨10, 10⟩ 8) := by
    decide +kernel
  obtain ⟨hcut, -⟩ := (diagnostic_points_at_fault "é\n\ré {? x}\ny").2
    (.malformed (.expected "=") ⟨10, 10⟩ 8)
  refine ⟨h, Option.some.inj (hcut.symm.trans ?_)⟩
  decide +kernel

end EscapeClause
