import Packwright.Proofs.Parsing.Reading
import Packwright.Proofs.Parsing.Trees
import Packwright.Proofs.Precedence.Trees

/-!
# Reading sequences of operators

The levels of operators are read by loops inside of each other, the loosest one outside.  What they
make of a sequence is its ordered tree, whether its operators have an operation for their operands
or not: casts are put around operands, and an operator without an operation is a node all the same.

* `Parse.Ends`: a reader succeeds.
* `Parse.ReadsTree`: a reader makes of the sequence of a tree an expression with its skeleton.
* `Parse.level_chain`: where the loop of a level stands behind the left side of a tree.
* `Parse.readsTree_level`: a level of operators, from the level of its operands.
* `Parse.readsTree_expressionWithin`: whole sequences, with enough levels of brackets.
* `Parse.expression_ordered`: expressions are read as the one ordered tree over their sequence.
-/

namespace Packwright

open Precedence

/-- The token ends a sequence at a level: it carries on with no operand, and as an operator it is
looser. -/
structure Token.Follows (level : Nat) (t : Token) : Prop where
  member : t.isMark .dot = false
  range : t.isMark .dotDot = false
  call : t.isMark .lparen = false
  looser : ∀ o : Operator, o.token = t → o.level < level

theorem Token.Follows.mono {level level' : Nat} {t : Token} (h : t.Follows level)
    (hle : level ≤ level') : t.Follows level' :=
  { h with looser := fun o ho => (h.looser o ho).trans_le hle }

/-- Line breaks, closing parentheses and the end end a sequence at all levels. -/
theorem Token.follows_zero {t : Token}
    (h : t = .newline ∨ t = .mark .rparen ∨ t = .endOfSource) : t.Follows 0 := by
  rcases h with rfl | rfl | rfl
  all_goals
    refine ⟨rfl, rfl, rfl, fun o ho => ?_⟩
    unfold Operator.token at ho
    split at ho <;> cases ho

namespace Precedence

theorem Operator.token_injective {o o' : Operator} (h : o.token = o'.token) : o = o' := by
  unfold token at h
  split at h <;> split at h <;> first | rfl | cases h

theorem Operator.follows {o : Operator} {level : Nat} (h : o.level < level) :
    o.token.Follows level := by
  refine ⟨?_, ?_, ?_, fun o' ho' => Operator.token_injective ho' ▸ h⟩
  all_goals
    unfold token
    split <;> rfl

/-- Whether an operand can begin with a token. -/
def startsOperand : Token → Bool
  | .integer _ _ | .name _ | .mark .minus | .mark .lparen => true
  | _ => false

theorem isNewline_of_startsOperand {t : Token} (h : startsOperand t = true) :
    t.isNewline = false := by
  cases t <;> first | rfl | cases h

theorem isMark_dotDot_of_startsOperand {t : Token} (h : startsOperand t = true) :
    t.isMark .dotDot = false := by
  unfold startsOperand at h
  split at h <;> first | rfl | cases h

theorem Operand.tokens_eq_cons (x : Operand) :
    ∃ t ts, x.tokens = t :: ts ∧ startsOperand t.token = true := by
  cases x with
  | atom a => cases a <;> exact ⟨_, _, by rw [tokens, Atom.tokens], rfl⟩
  | group _ _ _ _ _ => exact ⟨_, _, by rw [tokens], rfl⟩

theorem Sequence.tokens_eq_cons (r : Sequence) :
    ∃ t ts, r.tokens = t :: ts ∧ startsOperand t.token = true := by
  cases r with
  | single x =>
    rw [tokens]
    exact x.tokens_eq_cons
  | cons x o place rest =>
    obtain ⟨t, ts, hx, ht⟩ := x.tokens_eq_cons
    exact ⟨t, ts ++ ⟨o.token, place⟩ :: rest.tokens, by rw [tokens, hx]; rfl, ht⟩

end Precedence

/-! ## Expressions -/

namespace Expr

@[simp] theorem skeleton_casted (e : Expr) (c : Option Cast) :
    (e.casted c).skeleton = e.skeleton := by
  cases c <;> rfl

@[simp] theorem skeleton_moved (e : Expr) (span : Span) : (e.moved span).skeleton = e.skeleton := by
  cases e <;> rfl

end Expr

theorem Kind.takesDataPath_result {k : Kind} {o : Operation} (h : o ∈ k.operations) :
    o.result.takesDataPath = false := by
  revert o
  cases k <;> decide

namespace Parsing

/-- The name is that of a score. -/
def IsScore (s : Parsing) (x : String) : Prop := ∃ b, s.lookup? x = some b ∧ b.ty = .plain .score

/-- In front of the sequence of a tree, with tokens behind it that end the sequence at a level. -/
structure Faces (bound level : Nat) (t : OperatorTree) (rest : List Located) (s : Parsing) :
    Prop where
  tokens : s.rest = t.sequence.tokens ++ rest
  follows : ∃ stop more, rest = stop :: more ∧ stop.token.Follows level
  declared : ∀ x ∈ t.sequence.names, s.IsScore x
  left : s.rest.length ≤ bound

/-- Behind tokens that were read as an expression. -/
structure Gives (s : Parsing) (rest : List Located) (k : Skeleton) (e : Expr) (s₁ : Parsing) :
    Prop where
  rest : s₁.rest = rest
  scopes : s₁.scopes = s.scopes
  skeleton : e.skeleton = k
  kind : e.kind.takesDataPath = false

theorem IsScore.congr {s s₁ : Parsing} {x : String} (h : s.IsScore x)
    (hscopes : s₁.scopes = s.scopes) : s₁.IsScore x := by
  unfold IsScore lookup? at h ⊢
  rw [hscopes]
  exact h

namespace Faces

variable {bound level : Nat} {t : OperatorTree} {rest : List Located} {s : Parsing}

theorem rest_ne_nil (h : s.Faces bound level t rest) : rest ≠ [] := by
  obtain ⟨stop, more, rfl, -⟩ := h.follows
  exact List.cons_ne_nil _ _

theorem startsOperand_peek (h : s.Faces bound level t rest) : startsOperand s.peek = true := by
  obtain ⟨u, us, hsequence, hu⟩ := t.sequence.tokens_eq_cons
  have hrest : s.rest = u :: (us ++ rest) := by rw [h.tokens, hsequence, List.cons_append]
  rw [Parse.peek_of_rest hrest]
  exact hu

theorem mono {level' : Nat} (h : s.Faces bound level t rest) (hle : level ≤ level') :
    s.Faces bound level' t rest := by
  obtain ⟨stop, more, hrest, hstop⟩ := h.follows
  exact { h with follows := ⟨stop, more, hrest, hstop.mono hle⟩ }

section Node

variable {o : Operator} {place : Span} {l r : OperatorTree}
  (h : s.Faces bound level (.node o place l r) rest)

include h

/-- In front of a node stands its left side, which the operator ends. -/
theorem node_left (ho : o.level < level) :
    s.Faces bound level l (⟨o.token, place⟩ :: (r.sequence.tokens ++ rest)) := by
  refine ⟨?_, ⟨_, _, rfl, Operator.follows ho⟩, fun x hx => h.declared x ?_, h.left⟩
  · rw [h.tokens, OperatorTree.sequence, Sequence.tokens_append, List.append_assoc,
      List.cons_append]
  · rw [OperatorTree.sequence, Sequence.names_append]
    exact List.mem_append_left _ hx

/-- Behind the operator of a node stands its right side. -/
theorem node_right {s₁ : Parsing} (hrest : s₁.rest = r.sequence.tokens ++ rest)
    (hscopes : s₁.scopes = s.scopes) : s₁.Faces bound level r rest := by
  have hleft := h.left
  rw [h.tokens, OperatorTree.sequence, Sequence.tokens_append] at hleft
  simp only [List.length_append, List.length_cons] at hleft
  refine ⟨hrest, h.follows, fun x hx => (h.declared x ?_).congr hscopes, ?_⟩
  · rw [OperatorTree.sequence, Sequence.names_append]
    exact List.mem_append_right _ hx
  · rw [hrest, List.length_append]
    omega

end Node

end Faces

end Parsing

namespace Parse

open Parsing

variable {α β : Type}

/-! ## Readers that succeed -/

/-- The reader succeeds from `s`; its result and the state behind it satisfy `Q`. -/
def Ends (p : Parse α) (s : Parsing) (Q : α → Parsing → Prop) : Prop :=
  ∃ a s₁, p s = .ok a s₁ ∧ Q a s₁

namespace Ends

variable {p q : Parse α} {f : α → Parse β} {s : Parsing} {P : α → Parsing → Prop}
  {Q : β → Parsing → Prop}

protected theorem pure {a : α} (h : P a s) : Ends (pure a) s P := ⟨a, s, rfl, h⟩

theorem step {a : α} {s₁ : Parsing} (hrun : p s = .ok a s₁) (hf : Ends (f a) s₁ Q) :
    Ends (p >>= f) s Q := by
  obtain ⟨b, s₂, hf, hb⟩ := hf
  exact ⟨b, s₂, bind_ok.mpr ⟨a, s₁, hrun, hf⟩, hb⟩

protected theorem bind (hp : Ends p s P) (hf : ∀ a s₁, P a s₁ → Ends (f a) s₁ Q) :
    Ends (p >>= f) s Q := by
  obtain ⟨a, s₁, hrun, ha⟩ := hp
  exact step hrun (hf a s₁ ha)

theorem ite {c : Prop} [Decidable c] (hp : Ends p s P) (hq : Ends q s P) :
    Ends (if c then p else q) s P := by
  split
  · exact hp
  · exact hq

end Ends

/-- **An operator** between two expressions is a node in any case. -/
theorem ends_binary (op : BinaryOp) (opSpan : Span) (l r : Expr) (s : Parsing) :
    Ends (binary op opSpan l r) s (s.Gives s.rest (.binary op l.skeleton r.skeleton)) := by
  unfold binary
  refine .ite (.pure ⟨rfl, rfl, rfl, rfl⟩) ?_
  split
  · exact .step rfl (.pure ⟨rfl, rfl, rfl, rfl⟩)
  · rename_i resolved hresolved
    extract_lets differ
    cases differ with
    | some names => exact .step rfl (.pure ⟨rfl, rfl, rfl, rfl⟩)
    | none =>
      obtain ⟨left, -, -, hmem, -⟩ := resolveBinary?_spec hresolved
      refine .pure ⟨rfl, rfl, ?_, Kind.takesDataPath_result hmem⟩
      rw [Expr.skeleton, Expr.skeleton_casted, Expr.skeleton_casted]

/-- The reader makes of the sequence of a tree an expression with the skeleton of the tree. -/
def ReadsTree (p : Parse Expr) (bound level : Nat) (t : OperatorTree) : Prop :=
  ∀ ⦃s : Parsing⦄ ⦃rest : List Located⦄, s.Faces bound level t rest →
    Ends p s (s.Gives rest t.skeleton)

/-! ## Operators

The operators of each level are those that are looked for there. -/

/-- The operator of a level that a token is. -/
def operatorOf? : (level : Nat) → Token → Option BinaryOp
  | 0 => operatorAt? [(.or, .or)]
  | 1 => operatorAt? [(.and, .and)]
  | 2 => relationAt?
  | 3 => operatorAt? sumOps
  | _ => operatorAt? productOps

theorem operatorOf?_token (o : Operator) : operatorOf? o.level o.token = some o.op := by
  cases o with
  | relate r => cases r <;> rfl
  | arith a => cases a <;> rfl
  | _ => rfl

theorem operatorAt?_of_follows {ops : List (Mark × BinaryOp)} {level : Nat} {t : Token}
    (h : t.Follows level)
    (hops : ∀ m ∈ ops, ∃ o : Operator, o.token = .mark m.1 ∧ level ≤ o.level) :
    operatorAt? ops t = none := by
  unfold operatorAt?
  split
  · rename_i mark
    rw [Option.map_eq_none_iff, List.find?_eq_none]
    rintro m hm hmark
    obtain ⟨o, ho, hlevel⟩ := hops m hm
    have hless := h.looser o (by rw [ho, of_decide_eq_true hmark])
    omega
  · rfl

theorem relationAt?_of_follows {t : Token} (h : t.Follows 2) : relationAt? t = none := by
  unfold relationAt?
  split
  · exact absurd (h.looser .within rfl) (by decide)
  · refine operatorAt?_of_follows h ?_
    simp only [relationOps, List.forall_mem_cons]
    exact ⟨⟨.relate .eq, rfl, le_rfl⟩, ⟨.relate .ne, rfl, le_rfl⟩, ⟨.relate .lt, rfl, le_rfl⟩,
      ⟨.relate .le, rfl, le_rfl⟩, ⟨.relate .gt, rfl, le_rfl⟩, ⟨.relate .ge, rfl, le_rfl⟩,
      List.forall_mem_nil _⟩

theorem operatorOf?_of_follows {t : Token} : ∀ {level : Nat}, level < 5 → t.Follows level →
    operatorOf? level t = none
  | 0, _, h => operatorAt?_of_follows h (List.forall_mem_singleton.mpr ⟨.or, rfl, le_rfl⟩)
  | 1, _, h => operatorAt?_of_follows h (List.forall_mem_singleton.mpr ⟨.and, rfl, le_rfl⟩)
  | 2, _, h => relationAt?_of_follows h
  | 3, _, h => by
    refine operatorAt?_of_follows h ?_
    simp only [sumOps, List.forall_mem_cons]
    exact ⟨⟨.arith .add, rfl, le_rfl⟩, ⟨.arith .sub, rfl, le_rfl⟩, List.forall_mem_nil _⟩
  | 4, _, h => by
    refine operatorAt?_of_follows h ?_
    simp only [productOps, List.forall_mem_cons]
    exact ⟨⟨.arith .mul, rfl, le_rfl⟩, ⟨.arith .div, rfl, le_rfl⟩, ⟨.arith .mod, rfl, le_rfl⟩,
      List.forall_mem_nil _⟩

/-! ## Levels -/

section Level

variable {op? : Token → Option BinaryOp} {next : Parse Expr} {bound level : Nat}

theorem chain_of_none {s : Parsing} (h : op? s.peek = none) (n : Nat) (e : Expr) :
    chain op? next n e s = .ok e s := by
  have hpeek : peek s = .ok s.peek s := rfl
  cases n with
  | zero => rfl
  | succ n =>
    rw [chain, bind_run hpeek, h]
    rfl

theorem chain_of_some {s : Parsing} {op : BinaryOp} (h : op? s.peek = some op) (n : Nat)
    (e : Expr) : chain op? next (n + 1) e s = (do
      let opSpan ← advance
      let right ← next
      chain op? next n (← binary op opSpan e right) : Parse Expr) s := by
  have hpeek : peek s = .ok s.peek s := rfl
  rw [chain, bind_run hpeek, h]

variable (hnext : ∀ t : OperatorTree, t.Ordered → level < t.level →
  ReadsTree next bound (level + 1) t)

include hnext

/-- An operand of the level is read, and the loop begins behind it. -/
theorem level_chain_of_lt {t : OperatorTree} (ht : t.Ordered) (hlevel : level < t.level)
    {s : Parsing} {rest : List Located} (hs : s.Faces bound (level + 1) t rest) :
    ∃ e s₁ n, Parse.level (operatorOf? level) next s = chain (operatorOf? level) next n e s₁ ∧
      rest.length ≤ n ∧ s.Gives rest t.skeleton e s₁ := by
  obtain ⟨e, s₁, hrun, h₁⟩ := hnext t ht hlevel hs
  exact ⟨e, s₁, s₁.rest.length, bind_run hrun _, by rw [h₁.rest], h₁⟩

/-- **One round** of the loop takes an operator of the level and its right operand. -/
theorem chain_node {o : Operator} (ho : o.level = level) {place : Span} {l r : OperatorTree}
    (hr : r.Ordered) (hright : level < r.level) {s s₁ : Parsing} {rest : List Located}
    (hs : s.Faces bound (level + 1) (.node o place l r) rest) {e : Expr}
    (h₁ : s.Gives (⟨o.token, place⟩ :: (r.sequence.tokens ++ rest)) l.skeleton e s₁) (n : Nat) :
    ∃ e' s₂, chain (operatorOf? level) next (n + 1) e s₁ =
        chain (operatorOf? level) next n e' s₂ ∧
      s.Gives rest (OperatorTree.node o place l r).skeleton e' s₂ := by
  have hne : r.sequence.tokens ++ rest ≠ [] := List.append_ne_nil_of_right_ne_nil _ hs.rest_ne_nil
  set s₂ : Parsing := { s₁ with rest := r.sequence.tokens ++ rest, last := place }
  have hadvance : advance s₁ = .ok place s₂ := advance_ok h₁.rest hne
  have hfaces : s₂.Faces bound (level + 1) r rest := hs.node_right rfl h₁.scopes
  obtain ⟨e', s₃, hrun, h₃⟩ := hnext r hr hright hfaces
  obtain ⟨e'', s₄, hbinary, h₄⟩ := ends_binary o.op place e e' s₃
  refine ⟨e'', s₄, ?_, h₄.rest.trans h₃.rest, ?_, ?_, h₄.kind⟩
  · have hpeek : operatorOf? level s₁.peek = some o.op := by
      rw [peek_of_rest h₁.rest, ← ho, operatorOf?_token]
    rw [chain_of_some hpeek, bind_run hadvance, bind_run hrun, bind_run hbinary]
  · exact h₄.scopes.trans (h₃.scopes.trans h₁.scopes)
  · rw [h₄.skeleton, h₁.skeleton, h₃.skeleton, OperatorTree.skeleton]

variable (hlt : level < 5)

include hlt

/-- **The left side of a tree**: the loop stands behind the sequence, with the tree so far.  The
rounds that it has left are enough for all tokens that are left. -/
theorem level_chain : ∀ {t : OperatorTree}, t.Ordered → level ≤ t.level → ∀ {s : Parsing}
    {rest : List Located}, s.Faces bound (level + 1) t rest →
      ∃ e s₁ n, Parse.level (operatorOf? level) next s = chain (operatorOf? level) next n e s₁ ∧
        rest.length ≤ n ∧ s.Gives rest t.skeleton e s₁
  | .node o place l r, ht, hlevel, s, rest, hs => by
    by_cases ho : o.level = level
    · -- the loop has been through the left side, and its next round takes the rest of the node
      obtain ⟨hl, hr, hleft, hright⟩ := ht
      have hfaces := hs.node_left (Nat.lt_succ_of_le ho.le)
      obtain ⟨e, s₁, n, hrun, hn, h₁⟩ := level_chain hl (ho ▸ hleft) hfaces
      rw [List.length_cons, List.length_append] at hn
      obtain ⟨n, rfl⟩ : ∃ k, n = k + 1 := ⟨n - 1, by omega⟩
      obtain ⟨e', s₂, hchain, h₂⟩ := chain_node hnext ho hr (ho ▸ hright) hs h₁ n
      exact ⟨e', s₂, n, hrun.trans hchain, by omega, h₂⟩
    · exact level_chain_of_lt hnext ht (lt_of_le_of_ne hlevel (Ne.symm ho)) hs
  | .atom _, ht, _, s, rest, hs | .group _ _ _ _ _, ht, _, s, rest, hs =>
    level_chain_of_lt hnext ht hlt hs

/-- **A level of operators** reads the sequences of all trees at this level and above. -/
theorem readsTree_level {t : OperatorTree} (ht : t.Ordered) (hlevel : level ≤ t.level) :
    ReadsTree (Parse.level (operatorOf? level) next) bound level t := by
  intro s rest hs
  obtain ⟨e, s₁, n, hrun, -, h₁⟩ :=
    level_chain hnext hlt ht hlevel (hs.mono (Nat.le_succ level))
  obtain ⟨stop, more, rfl, hfollows⟩ := hs.follows
  refine ⟨e, s₁, hrun.trans (chain_of_none ?_ n e), h₁⟩
  rw [peek_of_rest h₁.rest, operatorOf?_of_follows hlt hfollows]

end Level

/-! ## Operands -/

theorem ends_numberLiteral (negative : Bool) (w : Width) (n : Nat) (span : Span) {s s₁ : Parsing}
    {rest : List Located} (hrest : s₁.rest = rest) (hscopes : s₁.scopes = s.scopes) :
    Ends (numberLiteral negative (.integer w n) span) s₁
      (s.Gives rest (.ofInt w (if negative then -(n : Int) else n))) := by
  unfold numberLiteral number? Skeleton.ofInt
  cases hvalue : Word.ofInt? w (if negative then -(n : Int) else n) with
  | none =>
    simp only [hvalue]
    exact .step rfl (.pure ⟨hrest, hscopes, rfl, rfl⟩)
  | some v =>
    simp only [hvalue]
    exact .pure ⟨hrest, hscopes, rfl, by cases w <;> rfl⟩

section Operands

variable {expr : Parse Expr} {bound level : Nat} {s : Parsing} {rest : List Located} {k : Skeleton}

/-- Neither a member nor a data path follows, so that the operand is complete. -/
theorem ends_accesses {stop : Located} {more : List Located} {e : Expr}
    (hs : s.rest = stop :: more) (hstop : stop.token.Follows level)
    (he : e.kind.takesDataPath = false) (n : Nat) :
    Ends (accesses expr n e) s fun e' s₁ => e' = e ∧ s₁ = s := by
  cases n with
  | zero => exact .pure ⟨rfl, rfl⟩
  | succ n =>
    rw [accesses]
    refine .step rfl ?_
    split
    · rename_i hpeek
      have hdot := hstop.member
      rw [← peek_of_rest hs, hpeek] at hdot
      cases hdot
    · refine .step rfl ?_
      rw [he]
      exact .pure ⟨rfl, rfl⟩
    · exact .pure ⟨rfl, rfl⟩

/-- An operand without a sign. -/
theorem ends_factor (hfollows : ∃ stop more, rest = stop :: more ∧ stop.token.Follows level)
    (hpeek : s.peek.isMark .minus = false ∧ s.peek.isMark .bang = false)
    (h : Ends (primary expr) s (s.Gives rest k)) : Ends (factor expr) s (s.Gives rest k) := by
  obtain ⟨stop, more, rfl, hstop⟩ := hfollows
  have haccessed : Ends (accessed expr) s (s.Gives (stop :: more) k) := by
    refine h.bind fun e s₁ h₁ => .step rfl ?_
    obtain ⟨_, _, hrun, rfl, rfl⟩ := ends_accesses h₁.rest hstop h₁.kind s₁.rest.length
    exact ⟨_, _, hrun, h₁⟩
  refine .step rfl ?_
  cases s.rest.length with
  | zero => exact haccessed
  | succ n =>
    rw [signed]
    refine .step rfl ?_
    split
    · rename_i hminus
      rw [hminus] at hpeek
      cases hpeek.1
    · rename_i hbang
      rw [hbang] at hpeek
      cases hpeek.2
    · exact haccessed

theorem readsTree_number (span : Span) (w : Width) (n : Nat) :
    ReadsTree (factor expr) bound level (.atom (.number span w n)) := by
  intro s rest hs
  have hrest : s.rest = ⟨.integer w n, span⟩ :: rest := hs.tokens
  have hpeek := peek_of_rest hrest
  refine ends_factor hs.follows (by rw [hpeek]; exact ⟨rfl, rfl⟩) ?_
  refine .step rfl (.step rfl ?_)
  rw [hpeek]
  exact .step (advance_ok hrest hs.rest_ne_nil) (ends_numberLiteral false w n _ rfl rfl)

theorem readsTree_negative (sign span : Span) (adjacent : span.start = sign.stop) (w : Width)
    (n : Nat) : ReadsTree (factor expr) bound level (.atom (.negative sign span adjacent w n)) := by
  intro s rest hs
  have hrest : s.rest = ⟨.mark .minus, sign⟩ :: ⟨.integer w n, span⟩ :: rest := hs.tokens
  refine .step rfl ?_
  rw [hrest, List.length_cons, signed]
  refine .step rfl ?_
  rw [peek_of_rest hrest]
  refine .step (advance_ok hrest (List.cons_ne_nil _ _)) (.step rfl ?_)
  set s₁ : Parsing := { s with rest := ⟨.integer w n, span⟩ :: rest, last := sign }
  have hnumber : (s₁.peek.isNumber && s₁.adjacent) = true := decide_eq_true adjacent
  rw [if_pos hnumber]
  exact .step (advance_ok rfl hs.rest_ne_nil) (ends_numberLiteral true w n _ rfl rfl)

theorem readsTree_name (span : Span) (x : String) :
    ReadsTree (factor expr) bound level (.atom (.name span x)) := by
  intro s rest hs
  have hrest : s.rest = ⟨.name x, span⟩ :: rest := hs.tokens
  have hpeek := peek_of_rest hrest
  obtain ⟨b, hb, hscore⟩ := hs.declared x List.mem_cons_self
  obtain ⟨stop, more, rfl, hstop⟩ := hs.follows
  refine ends_factor ⟨stop, more, rfl, hstop⟩ (by rw [hpeek]; exact ⟨rfl, rfl⟩) ?_
  refine .step rfl (.step rfl ?_)
  rw [hpeek]
  refine .step (advance_ok hrest (List.cons_ne_nil _ _)) (.step rfl ?_)
  set s₁ : Parsing := { s with rest := stop :: more, last := span }
  have hcall : s₁.peek.isMark .lparen = false := hstop.call
  rw [hcall]
  refine .step rfl ?_
  have hlookup : s₁.lookup? x = some b := hb
  rw [hlookup]
  exact .pure ⟨rfl, rfl, rfl, by rw [Expr.kind, Expr.info, hscore]; rfl⟩

/-! ### Parentheses -/

/-- Line breaks in front of another token are passed over. -/
theorem skipTokens_newlines {t : Located} (ht : t.token.isNewline = false) (ts : List Located) :
    ∀ (places : List Span) (last : Span), ∃ last',
      skipTokens Token.isNewline last (newlines places ++ t :: ts) = (last', t :: ts)
  | [], last => by
    refine ⟨last, ?_⟩
    show skipTokens Token.isNewline last (t :: ts) = _
    cases ts with
    | nil => rfl
    | cons u us => rw [skipTokens, ht]; rfl
  | place :: places, last => by
    obtain ⟨last', hlast'⟩ := skipTokens_newlines ht ts places place
    refine ⟨last', ?_⟩
    rw [← hlast']
    cases places <;> rfl

theorem ends_skipNewlines {places : List Span} {t : Located} {ts : List Located}
    (hs : s.rest = newlines places ++ t :: ts) (ht : t.token.isNewline = false) :
    Ends skipNewlines s fun _ s₁ => s₁.rest = t :: ts ∧ s₁.scopes = s.scopes := by
  obtain ⟨last', hskip⟩ := skipTokens_newlines ht ts places s.last
  refine ⟨(), s.skipWhile Token.isNewline, rfl, ?_, rfl⟩
  show (skipTokens Token.isNewline s.last s.rest).2 = _
  rw [hs, hskip]

/-- Inside of parentheses, a sequence ends in front of a line break or of the closing one. -/
theorem follows_inside (after : List Span) (last : Span) (rest : List Located) :
    ∃ stop more, newlines after ++ ⟨.mark .rparen, last⟩ :: rest = stop :: more ∧
      stop.token.Follows 0 := by
  cases after with
  | nil => exact ⟨_, _, rfl, Token.follows_zero (.inr (.inl rfl))⟩
  | cons place places => exact ⟨_, _, rfl, Token.follows_zero (.inl rfl)⟩

theorem readsTree_group (first last : Span) (before after : List Span) {inner : OperatorTree}
    (h : ReadsTree expr bound 0 inner) :
    ReadsTree (factor expr) (bound + 1) level (.group first last before after inner) := by
  intro s rest hs
  set inside := newlines after ++ ⟨.mark .rparen, last⟩ :: rest with hinside
  have hrest : s.rest = ⟨.mark .lparen, first⟩ ::
      (newlines before ++ (inner.sequence.tokens ++ inside)) := by
    rw [hs.tokens, OperatorTree.sequence, Sequence.tokens, Operand.tokens]
    simp [hinside]
  obtain ⟨t, ts, htokens, ht⟩ := inner.sequence.tokens_eq_cons
  have hpeek := peek_of_rest hrest
  refine ends_factor hs.follows (by rw [hpeek]; exact ⟨rfl, rfl⟩) (.step rfl (.step rfl ?_))
  rw [hpeek]
  refine .step (advance_ok hrest (by simp [htokens])) ?_
  have hbefore : newlines before ++ (inner.sequence.tokens ++ inside) =
      newlines before ++ t :: (ts ++ inside) := by rw [htokens, List.cons_append]
  refine (ends_skipNewlines hbefore (isNewline_of_startsOperand ht)).bind fun _ s₁ h₁ => ?_
  have hfaces : s₁.Faces bound 0 inner inside := by
    have hleft := hs.left
    refine ⟨by rw [h₁.1, htokens, List.cons_append], follows_inside after last rest, ?_, ?_⟩
    · intro x hx
      refine (hs.declared x ?_).congr h₁.2
      rw [OperatorTree.sequence, Sequence.names, Operand.names]
      exact hx
    · rw [hrest, hbefore, List.length_cons, List.length_append] at hleft
      rw [h₁.1]
      omega
  refine (h hfaces).bind fun e s₂ h₂ => ?_
  refine (ends_skipNewlines h₂.rest rfl).bind fun _ s₃ h₃ => ?_
  refine .step (expect_ok h₃.1 hs.rest_ne_nil) (.pure ⟨rfl, ?_, ?_, ?_⟩)
  · exact h₃.2.trans (h₂.scopes.trans h₁.2)
  · rw [Expr.skeleton_moved, h₂.skeleton, OperatorTree.skeleton]
  · rw [Expr.kind_moved]
    exact h₂.kind

/-- **Operands** in a sequence. -/
theorem readsTree_factor (hexpr : ∀ t : OperatorTree, t.Ordered → ReadsTree expr bound 0 t)
    {t : OperatorTree} (ht : t.Ordered) (hlevel : 5 ≤ t.level) :
    ReadsTree (factor expr) (bound + 1) level t := by
  cases t with
  | atom a =>
    cases a with
    | number span w n => exact readsTree_number span w n
    | negative sign span adjacent w n => exact readsTree_negative sign span adjacent w n
    | name span x => exact readsTree_name span x
  | group first last before after inner =>
    exact readsTree_group first last before after (hexpr inner ht)
  | node o place l r => exact absurd o.level_lt (Nat.not_lt.mpr hlevel)

/-- No range begins or ends in a sequence. -/
theorem readsTree_ranged {t : OperatorTree} (h : ReadsTree (sum expr) bound level t) :
    ReadsTree (ranged expr) bound level t := by
  intro s rest hs
  have hpeek := isMark_dotDot_of_startsOperand hs.startsOperand_peek
  refine .step rfl ?_
  rw [hpeek]
  refine (h hs).bind fun e s₁ h₁ => .step rfl ?_
  obtain ⟨stop, more, rfl, hstop⟩ := hs.follows
  rw [peek_of_rest h₁.rest, hstop.range]
  exact .pure h₁

end Operands

/-! ## Expressions -/

section Levels

variable {expr : Parse Expr} {bound : Nat}
  (hexpr : ∀ t : OperatorTree, t.Ordered → ReadsTree expr bound 0 t)

include hexpr

theorem readsTree_product {t : OperatorTree} (ht : t.Ordered) (hlevel : 4 ≤ t.level) :
    ReadsTree (product expr) (bound + 1) 4 t :=
  readsTree_level (fun _ ht h => readsTree_factor hexpr ht h) (by decide) ht hlevel

theorem readsTree_sum {t : OperatorTree} (ht : t.Ordered) (hlevel : 3 ≤ t.level) :
    ReadsTree (sum expr) (bound + 1) 3 t :=
  readsTree_level (fun _ ht h => readsTree_product hexpr ht h) (by decide) ht hlevel

theorem readsTree_relation {t : OperatorTree} (ht : t.Ordered) (hlevel : 2 ≤ t.level) :
    ReadsTree (relation expr) (bound + 1) 2 t :=
  readsTree_level (fun _ ht h => readsTree_ranged (readsTree_sum hexpr ht h)) (by decide) ht hlevel

theorem readsTree_conjunction {t : OperatorTree} (ht : t.Ordered) (hlevel : 1 ≤ t.level) :
    ReadsTree (conjunction expr) (bound + 1) 1 t :=
  readsTree_level (fun _ ht h => readsTree_relation hexpr ht h) (by decide) ht hlevel

theorem readsTree_disjunction {t : OperatorTree} (ht : t.Ordered) :
    ReadsTree (disjunction expr) (bound + 1) 0 t :=
  readsTree_level (fun _ ht h => readsTree_conjunction hexpr ht h) (by decide) ht (Nat.zero_le _)

end Levels

/-- **Sequences** with at most as many levels of parentheses as tokens. -/
theorem readsTree_expressionWithin : ∀ (bound : Nat) {t : OperatorTree}, t.Ordered →
    ReadsTree (expressionWithin bound) bound 0 t
  | 0, t, _ => by
    intro s rest hs
    have hleft := hs.left
    obtain ⟨u, us, hsequence, -⟩ := t.sequence.tokens_eq_cons
    rw [hs.tokens, hsequence] at hleft
    exact absurd hleft (Nat.not_succ_le_zero _)
  | bound + 1, _, ht =>
    readsTree_disjunction (fun _ ht => readsTree_expressionWithin bound ht) ht

/-- **Precedence.**  Over each sequence there is exactly one ordered tree, and the sequence is read
as this tree, up to the token that ends it.  Whether its operators have an operation for their
operands does not matter. -/
theorem expression_ordered (r : Sequence) {s : Parsing} {stop : Located} {more : List Located}
    (hrest : s.rest = r.tokens ++ stop :: more) (hstop : stop.token.Follows 0)
    (hnames : ∀ x ∈ r.names, s.IsScore x) :
    ∃ t : OperatorTree, (t.Ordered ∧ t.sequence = r) ∧
      (∀ u : OperatorTree, u.Ordered → u.sequence = r → u = t) ∧
      ∃ e s₁, expression s = .ok e s₁ ∧ s₁.rest = stop :: more ∧ e.skeleton = t.skeleton := by
  obtain ⟨t, ⟨ht, rfl⟩, hunique⟩ := r.existsUnique_ordered
  have hfaces : s.Faces s.rest.length 0 t (stop :: more) :=
    ⟨hrest, ⟨stop, more, rfl, hstop⟩, hnames, le_rfl⟩
  obtain ⟨e, s₁, hrun, h₁⟩ := readsTree_expressionWithin s.rest.length ht hfaces
  refine ⟨t, ⟨ht, rfl⟩, fun u hu hsequence => hunique u ⟨hu, hsequence⟩, ?_⟩
  exact ⟨e, s₁, hrun, h₁.rest, h₁.skeleton⟩

/-- `x - 1 - (y + 2 * -3) in 4 || 5`, with a line break in front of the closing parenthesis.  The
number behind `in` is cast to a range, and there is no `||` between a condition and a number. -/
theorem expression_ordered_untyped :
    let inner : Sequence := .cons (.atom (.name ⟨9, 10⟩ "y")) (.arith .add) ⟨11, 12⟩
      (.cons (.atom (.number ⟨13, 14⟩ .int 2)) (.arith .mul) ⟨15, 16⟩
        (.single (.atom (.negative ⟨17, 18⟩ ⟨18, 19⟩ rfl .int 3))))
    let r : Sequence := .cons (.atom (.name ⟨0, 1⟩ "x")) (.arith .sub) ⟨2, 3⟩
      (.cons (.atom (.number ⟨4, 5⟩ .int 1)) (.arith .sub) ⟨6, 7⟩
        (.cons (.group ⟨8, 9⟩ ⟨20, 21⟩ [] [⟨19, 20⟩] inner) .within ⟨22, 24⟩
          (.cons (.atom (.number ⟨25, 26⟩ .int 4)) .or ⟨27, 29⟩
            (.single (.atom (.number ⟨30, 31⟩ .int 5))))))
    let stop : Located := ⟨.endOfSource, ⟨31, 31⟩⟩
    let s : Parsing :=
      { rest := r.tokens ++ [stop], scopes := [[⟨"x", .plain .score⟩, ⟨"y", .plain .score⟩]] }
    stop.token.Follows 0 ∧ (∀ x ∈ r.names, s.IsScore x) ∧
      ∃ e s₁, expression s = .ok e s₁ ∧ s₁.rest = [stop] ∧ e.skeleton =
        .binary .or
          (.binary .within
            (.binary (.arith .sub) (.binary (.arith .sub) (.name "x") (.ofInt .int 1))
              (.binary (.arith .add) (.name "y")
                (.binary (.arith .mul) (.ofInt .int 2) (.ofInt .int (-3)))))
            (.ofInt .int 4))
          (.ofInt .int 5) := by
  intro inner r stop s
  have hstop : stop.token.Follows 0 := Token.follows_zero (.inr (.inr rfl))
  have hnames : ∀ x ∈ r.names, s.IsScore x := by
    intro x hx
    have hx' : x = "x" ∨ x = "y" := by
      simpa [r, inner, Sequence.names, Operand.names, Atom.names] using hx
    rcases hx' with rfl | rfl <;> exact ⟨_, rfl, rfl⟩
  obtain ⟨t, -, hunique, e, s₁, hrun, hrest, he⟩ := expression_ordered r rfl hstop hnames
  refine ⟨hstop, hnames, e, s₁, hrun, hrest, he.trans ?_⟩
  rw [← hunique r.tree r.tree_spec.1 r.tree_spec.2]
  rfl

end Parse

end Packwright
