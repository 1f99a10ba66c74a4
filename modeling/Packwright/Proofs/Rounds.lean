import Packwright.Proofs.Braces.Depth
import Packwright.Proofs.Parsing.Statements

/-!
# Progress

Whatever the tokens are, reading a source goes forward and ends at its end.  A statement that cannot
be read may take nothing, and passing over a line stops in front of a closing brace, but the two
never happen together: statements are read only where there is neither a brace nor the end.

The readers are bounded: a loop by the number of its rounds, an expression or a statement by the
levels of its nesting.  All these bounds are the number of tokens that are left.  Since every round
and every level takes a token, a bound is never what ends them.

* `Parse.Body`, `Parse.Course`: the runs of the loops over statements, which know no bound.
* `Parse.NeverCut`: no loop is ended by its bound.
* `reading_goes_forward`: every statement takes a token, a body ends at a closing brace or at the
  end, a script ends at the end.
-/

namespace Packwright

namespace Parse

open Parsing

variable {tokens : List Located} {s : Parsing}

/-! ## Runs without bounds -/

/-- A run of the loop over the statements of a body.  Each statement is read where there is neither
a closing brace nor the end, and takes a token. -/
inductive Body (read : Parse Stmt) : Parsing → List Stmt → Parsing → Prop
  | stop {s : Parsing} : (s.skipWhile separates).AtStop → Body read s [] (s.skipWhile separates)
  | step {s s₁ s₂ : Parsing} {t : Stmt} {ts : List Stmt} : ¬ (s.skipWhile separates).AtStop →
      guardedStatement read (s.skipWhile separates) = .ok t s₁ →
      s₁.rest.length < (s.skipWhile separates).rest.length → Body read s₁ ts s₂ →
      Body read s (t :: ts) s₂

/-- A run of the loop over the bodies of a source.  A closing brace behind a body is reported and
taken. -/
inductive Course (read : Parse Stmt) : Parsing → List Stmt → Parsing → Prop
  | stop {s s₁ : Parsing} {ts : List Stmt} : Body read s ts s₁ → s₁.peek.isEnd = true →
      Course read s ts s₁
  | step {s s₁ s₂ : Parsing} {ts us : List Stmt} : Body read s ts s₁ →
      s₁.peek = .mark .rbrace →
      Course read (s₁.advance.complain .unmatchedBrace s₁.here) us s₂ → Course read s (ts ++ us) s₂

section Runs

variable {read : Parse Stmt}

theorem statements_stop (hstop : (s.skipWhile separates).AtStop) (k : Nat) :
    statements read (k + 1) s = .ok [] (s.skipWhile separates) := by
  unfold AtStop at hstop
  rw [statements_succ, if_pos hstop]
  rfl

theorem statements_step (hstop : ¬ (s.skipWhile separates).AtStop) (k : Nat) :
    statements read (k + 1) s = (do
      let t ← guardedStatement read
      return t :: (← statements read k) : Parse (List Stmt)) (s.skipWhile separates) := by
  unfold AtStop at hstop
  rw [statements_succ, if_neg hstop]

theorem Body.length {ts : List Stmt} {s₁ : Parsing} (h : Body read s ts s₁) :
    s₁.rest.length ≤ s.rest.length := by
  have hskip : ∀ s : Parsing, s.Moves [] (s.skipWhile separates) :=
    .skipWhile fun _ => isPlain_of_separates
  induction h with
  | stop => exact (hskip _).takes.length
  | step _ _ hless _ ih => exact ih.trans (hless.le.trans (hskip _).takes.length)

variable {J : Nat} {n : Bool} (hended : Ended tokens)

include hended

/-- **One statement** of a body takes a token, whether it can be read or not. -/
theorem guardedStatement_takes (hread : Steps tokens n J J read read) (hs : s.Along tokens)
    (hstop : ¬ s.AtStop) : ∃ t s₁, guardedStatement read s = .ok t s₁ ∧ s₁.Along tokens ∧
      s₁.rest.length < s.rest.length := by
  obtain ⟨t, s₁, hrun⟩ := guardedStatement_ok read s
  obtain ⟨hpass, hmade⟩ := (reads_guardedStatement hread (.refl J s) hstop).ok hs.at_tokens hrun
  have hate := hmade.ate (List.cons_ne_nil _ _)
  exact ⟨t, s₁, hrun, hpass.along hended hs, hate (hs.ended hended)⟩

/-- **The statements of a body**, with as many rounds as tokens are left. -/
theorem statements_body (hread : Steps tokens n J J read read) : ∀ (k : Nat) {s : Parsing},
    s.Along tokens → s.rest.length ≤ k → ∃ ts s₁, statements read k s = .ok ts s₁ ∧
      Body read s ts s₁ ∧ s₁.Along tokens ∧ s₁.AtStop
  | 0, s, hs, hk => absurd (List.length_pos_iff.mpr hs.more) (by omega)
  | k + 1, s, hs, hk => by
    have hskip : s.Moves tokens (s.skipWhile separates) :=
      .skipWhile (fun _ => isPlain_of_separates) s
    have h₀ := hskip.along hended hs
    have hleft := hskip.takes.length
    by_cases hstop : (s.skipWhile separates).AtStop
    · exact ⟨[], _, statements_stop hstop k, .stop hstop, h₀, hstop⟩
    · obtain ⟨t, s₁, hrun, h₁, hless⟩ := guardedStatement_takes hended hread h₀ hstop
      obtain ⟨ts, s₂, hruns, hbody, h₂, hstop₂⟩ := statements_body hread k h₁ (by omega)
      refine ⟨t :: ts, s₂, ?_, .step hstop hrun hless hbody, h₂, hstop₂⟩
      rw [statements_step hstop]
      exact bind_ok.mpr ⟨t, s₁, hrun, bind_ok.mpr ⟨ts, s₂, hruns, rfl⟩⟩

/-- **The statements of a source.** -/
theorem scriptBody_course (hread : Steps tokens n J J read read) : ∀ (k : Nat) {s : Parsing},
    s.Along tokens → s.rest.length ≤ k → ∃ ts s₁, scriptBody read k s = .ok ts s₁ ∧
      Course read s ts s₁ ∧ s₁.Along tokens ∧ s₁.peek.isEnd = true
  | 0, s, hs, hk => absurd (List.length_pos_iff.mpr hs.more) (by omega)
  | k + 1, s, hs, hk => by
    obtain ⟨body, s₁, hrun, hbody, h₁, hstop⟩ := statements_body hended hread _ hs le_rfl
    rw [scriptBody_succ hrun]
    by_cases hbrace : s₁.peek.isMark .rbrace = true
    · have hpeek := Token.eq_of_isMark hbrace
      have hend : s₁.peek.isEnd = false := not_isEnd_of_mark hpeek
      have h₂ : (s₁.advance.complain .unmatchedBrace s₁.here).Along tokens :=
        (h₁.advance hended hend).congr rfl rfl
      have hless : (s₁.advance.complain .unmatchedBrace s₁.here).rest.length < s₁.rest.length :=
        length_advance (h₁.ended hended) hend
      have hleft := hbody.length
      obtain ⟨rest, s₃, hrest, hcourse, h₃, hend⟩ := scriptBody_course hread k h₂ (by omega)
      refine ⟨body ++ rest, s₃, ?_, .step hbody hpeek hcourse, h₃, hend⟩
      rw [if_pos hbrace]
      exact bind_ok.mpr ⟨_, _, rfl, bind_ok.mpr ⟨(), _, rfl, bind_ok.mpr ⟨rest, s₃, hrest, rfl⟩⟩⟩
    · have hend := (Bool.or_eq_true_iff.mp hstop).resolve_left hbrace
      refine ⟨body, s₁, ?_, .stop hbody hend, h₁, hend⟩
      rw [if_neg hbrace]
      rfl

end Runs

/-! ## Bounds -/

/-- With more rounds than tokens are left, the loop does what it does with that many. -/
def Enough {α : Type} (tokens : List Located) (loop : (n : Nat) → Parse α) : Prop :=
  ∀ s : Parsing, s.Along tokens → ∀ k, s.rest.length ≤ k → loop k s = loop s.rest.length s

/-- The levels of operators, each with the operands of its operators. -/
def levels (expr : Parse Expr) : List ((Token → Option BinaryOp) × Parse Expr) :=
  [(operatorAt? productOps, factor expr), (operatorAt? sumOps, product expr),
    (relationAt?, ranged expr), (operatorAt? [(.and, .and)], relation expr),
    (operatorAt? [(.or, .or)], conjunction expr)]

/-- No loop of the reader is ended by its bound, and no nesting exceeds its own. -/
structure NeverCut (tokens : List Located) : Prop where
  chain : ∀ depth, ∀ level ∈ levels (expressionWithin depth), ∀ e,
    Enough tokens fun n => Parse.chain level.1 level.2 n e
  separated : ∀ depth close, Enough tokens (Parse.separated (expressionWithin depth) close)
  compoundEntries : ∀ depth, Enough tokens (Parse.compoundEntries (expressionWithin depth))
  pathIndices : Enough tokens Parse.pathIndices
  pathParts : Enough tokens Parse.pathParts
  accesses : ∀ depth e, Enough tokens fun n => Parse.accesses (expressionWithin depth) n e
  signed : ∀ depth, Enough tokens (Parse.signed (expressionWithin depth))
  variants : Enough tokens Parse.variants
  moreParts : Enough tokens Parse.moreParts
  annotations : Enough tokens Parse.annotations
  statements : ∀ depth setting, Enough tokens (Parse.statements (statementWithin depth setting))
  scriptBody : ∀ depth setting, Enough tokens (Parse.scriptBody (statementWithin depth setting))
  expressions : Enough tokens expressionWithin
  nesting : ∀ setting, Enough tokens fun n => statementWithin n setting

theorem enough_of_bounds {α : Type} {loop : Nat → Parse α} (hended : Ended tokens)
    (h : ∀ {s : Parsing} {j k : Nat}, s.Bounds j k → s.At tokens → loop k s = loop j s) :
    Enough tokens loop :=
  fun _ hs _ hk => h (.inr ⟨hs.ended hended, le_rfl, hk⟩) hs.at_tokens

theorem enough_chain (hended : Ended tokens) (depth : Nat)
    {level : (Token → Option BinaryOp) × Parse Expr}
    (hlevel : level ∈ levels (expressionWithin depth)) (e : Expr) :
    Enough tokens fun n => chain level.1 level.2 n e := by
  have hexpr : Walks tokens depth depth (expressionWithin depth) (expressionWithin depth) :=
    walks_expressionWithin depth depth
  have hchain : ∀ {op? : Token → Option BinaryOp} {next : Parse Expr}, Joins op? →
      Walks tokens (depth + 1) (depth + 1) next next → Enough tokens fun n => chain op? next n e :=
    fun hop hnext => enough_of_bounds hended fun {s _ _} hrounds hs => by
      -- of the operand in front nothing is known
      have he : False → e.Made tokens false s s := False.elim
      exact (reads_chain hop hnext hrounds (.refl _ _) he hs).1
  simp only [levels, List.mem_cons, List.not_mem_nil, or_false] at hlevel
  rcases hlevel with rfl | rfl | rfl | rfl | rfl
  · exact hchain (joins_operatorAt? (by decide)) (walks_factor hexpr)
  · exact hchain (joins_operatorAt? (by decide)) (walks_product hexpr)
  · exact hchain joins_relationAt? (walks_ranged hexpr)
  · exact hchain (joins_operatorAt? (by decide)) (walks_relation hexpr)
  · exact hchain (joins_operatorAt? (by decide)) (walks_conjunction hexpr)

theorem neverCut (hended : Ended tokens) : NeverCut tokens := by
  have hexpr : ∀ depth, Walks tokens depth depth (expressionWithin depth)
      (expressionWithin depth) := fun depth => walks_expressionWithin depth depth
  have hstmt : ∀ depth setting, Steps tokens setting.nested depth depth
      (statementWithin depth setting) (statementWithin depth setting) :=
    fun depth setting => steps_statementWithin depth depth setting
  exact {
    chain := fun depth _ hlevel e => enough_chain hended depth hlevel e
    separated := fun depth close => enough_of_bounds hended fun hrounds hs =>
      (reads_separated (hexpr depth) close hrounds (.refl _ _) hs).1
    compoundEntries := fun depth => enough_of_bounds hended fun hrounds hs =>
      (reads_compoundEntries (hexpr depth) hrounds (.refl _ _) hs).1
    pathIndices := enough_of_bounds hended fun hrounds hs => (reads_pathIndices hrounds hs).1
    pathParts := enough_of_bounds hended fun hrounds hs => (reads_pathParts hrounds hs).1
    accesses := fun depth e => enough_of_bounds hended fun {s _ _} hrounds hs => by
      have he : False → e.Made tokens false s s := False.elim
      exact (reads_accesses (hexpr depth) hrounds (.refl _ _) he hs).1
    signed := fun depth => enough_of_bounds hended fun hrounds hs =>
      (reads_signed (hexpr depth) hrounds (.refl _ _) hs).1
    variants := enough_of_bounds hended fun hrounds hs => (reads_variants hrounds hs).1
    moreParts := enough_of_bounds hended fun hrounds hs => (reads_moreParts hrounds hs).1
    annotations := enough_of_bounds hended fun hrounds hs => (reads_annotations hrounds hs).1
    statements := fun depth setting => enough_of_bounds hended fun hrounds hs =>
      (reads_statements (hstmt depth setting) hrounds (.refl _ _) hs).1
    scriptBody := fun depth setting => enough_of_bounds hended fun hrounds hs => by
      obtain ⟨ts, s', hrun, hrun', -⟩ :=
        scriptBody_made (hstmt depth setting) hrounds (.refl _ _) hs
      exact hrun'.trans hrun.symm
    expressions := enough_of_bounds hended fun hdepth hs =>
      (walks_expressionWithin _ _ hdepth hs).1
    nesting := fun setting => enough_of_bounds hended fun hdepth hs =>
      (steps_statementWithin _ _ setting hdepth hs).1 }

/-- **Reading goes forward**, whatever the tokens in front of the end are.  Where a body reads a
statement, a token is taken, also if the statement cannot be read.  A body ends only in front of a
closing brace or at the end.  A script ends at the end.  No bound has a part in it: the runs are
those of the loops without bounds, and more rounds or a deeper nesting change nothing. -/
theorem reading_goes_forward (hended : Ended tokens) :
    (∀ depth setting (s : Parsing), s.Along tokens → ¬ s.AtStop →
      ∃ t s₁, guardedStatement (statementWithin depth setting) s = .ok t s₁ ∧ s₁.Along tokens ∧
        s₁.rest.length < s.rest.length) ∧
    (∀ depth setting (s : Parsing), s.Along tokens →
      ∃ ts s₁, statements (statementWithin depth setting) s.rest.length s = .ok ts s₁ ∧
        Body (statementWithin depth setting) s ts s₁ ∧ s₁.Along tokens ∧ s₁.AtStop) ∧
    (∃ ts s₁, parseScript tokens = (⟨ts⟩, s₁.report) ∧
      Course (statementWithin tokens.length {}) { rest := tokens } ts s₁ ∧ s₁.Along tokens ∧
      s₁.peek.isEnd = true ∧
      ∀ depth rounds, tokens.length ≤ depth → tokens.length ≤ rounds →
        scriptBody (statementWithin depth {}) rounds { rest := tokens } = .ok ts s₁) ∧
    NeverCut tokens := by
  have hstmt : ∀ depth setting, Steps tokens setting.nested depth depth
      (statementWithin depth setting) (statementWithin depth setting) :=
    fun depth setting => steps_statementWithin depth depth setting
  refine ⟨fun depth setting s hs hstop => ?_, fun depth setting s hs => ?_, ?_, neverCut hended⟩
  · exact guardedStatement_takes hended (hstmt depth setting) hs hstop
  · exact statements_body hended (hstmt depth setting) s.rest.length hs le_rfl
  · obtain ⟨ts, s₁, hrun, hcourse, h₁, hend⟩ :=
      scriptBody_course hended (hstmt tokens.length {}) tokens.length hended.along le_rfl
    refine ⟨ts, s₁, ?_, hcourse, h₁, hend, fun depth rounds hdepth hrounds => ?_⟩
    · unfold parseScript
      simp only [hrun]
    · obtain ⟨us, s₂, hrun₁, hrun₂, -⟩ := scriptBody_made
        (steps_statementWithin tokens.length depth {}) (.inr ⟨hended, le_rfl, hrounds⟩)
        (.inr ⟨hended, le_rfl, hdepth⟩) (.start tokens)
      exact hrun₂.trans (hrun₁.symm.trans hrun)

/-- A brace that closes nothing, a condition that is none, and a block that is never closed, in
which a compound is given up. -/
theorem reading_goes_forward_garbage :
    let tokens := (tokenize "\x7d if )\nas @s \x7b tag @s \x7b1 ) \x7d let\n \x7b \x7b").1
    Ended tokens ∧ (parseScript tokens).1.body.map Stmt.span = [⟨2, 7⟩, ⟨7, 37⟩] ∧
      ∃ (ts : List Stmt) (s₁ : Parsing), parseScript tokens = (⟨ts⟩, s₁.report) ∧
        s₁.Along tokens ∧ s₁.peek.isEnd = true := by
  intro tokens
  have hended : Ended tokens := tokenize_ended _
  obtain ⟨-, -, ⟨ts, s₁, hscript, -, halong, hend, -⟩, -⟩ := reading_goes_forward hended
  exact ⟨hended, by decide +kernel, ts, s₁, hscript, halong, hend⟩

end Parse

end Packwright
