import Mathlib.Data.List.Basic
import Packwright.Tree.Expression

/-!
# Sequences of operators

Operands stand in a sequence with an operator between each two of them.  They are numbers, names,
and sequences in parentheses.  A tree over a sequence is ordered if its operators bind as their
levels say, and those of one level from the left: no operator stands above a looser one on its left,
nor above one that is not tighter on its right.

* `Sequence`, `OperatorTree`, `OperatorTree.sequence`: sequences, trees, and the sequence of a tree.
* `OperatorTree.Ordered`: the trees that the levels allow.
* `Sequence.tree`: a tree for each sequence, built from the right.
* `Sequence.existsUnique_ordered`: there is exactly one ordered tree over a sequence.
* `OperatorTree.skeleton`, `Expr.skeleton`: what is left without parentheses, casts and types.
-/

namespace Packwright

namespace Precedence

/-- The operators between the operands of a sequence. -/
inductive Operator where
  | or
  | and
  | relate (relation : Relation)
  | within
  | arith (op : Arith)

namespace Operator

/-- The operator in an expression. -/
def op : Operator → BinaryOp
  | or => .or
  | and => .and
  | relate r => .relate r
  | within => .within
  | arith a => .arith a

/-- The level of an operator, the loosest one first. -/
def level : Operator → Nat
  | or => 0
  | and => 1
  | relate _ | within => 2
  | arith .add | arith .sub => 3
  | arith .mul | arith .div | arith .mod => 4

/-- The token of an operator. -/
def token : Operator → Token
  | or => .mark .or
  | and => .mark .and
  | within => .keyword .inKw
  | relate .lt => .mark .lt
  | relate .le => .mark .le
  | relate .gt => .mark .gt
  | relate .ge => .mark .ge
  | relate .eq => .mark .eqEq
  | relate .ne => .mark .ne
  | arith .add => .mark .plus
  | arith .sub => .mark .minus
  | arith .mul => .mark .star
  | arith .div => .mark .slash
  | arith .mod => .mark .percent

theorem level_lt (o : Operator) : o.level < 5 := by
  unfold level
  split <;> decide

end Operator

/-! ## Sequences -/

/-- Operands without parentheses.  A sign belongs to the number that it touches. -/
inductive Atom where
  | number (span : Span) (width : Width) (magnitude : Nat)
  | negative (sign span : Span) (adjacent : span.start = sign.stop) (width : Width)
    (magnitude : Nat)
  | name (span : Span) (name : String)

/-- The tokens of an operand. -/
def Atom.tokens : Atom → List Located
  | number span w n => [⟨.integer w n, span⟩]
  | negative sign span _ w n => [⟨.mark .minus, sign⟩, ⟨.integer w n, span⟩]
  | name span x => [⟨.name x, span⟩]

/-- The name that an operand is, if it is one. -/
def Atom.names : Atom → List String
  | name _ x => [x]
  | _ => []

/-- Line breaks at the given places. -/
def newlines (places : List Span) : List Located := places.map fun place => ⟨.newline, place⟩

mutual

/-- Operands: those without parentheses, and sequences in parentheses, with line breaks inside of
them. -/
inductive Operand where
  | atom (a : Atom)
  | group (first last : Span) (before after : List Span) (inner : Sequence)

/-- Operands with an operator between each two of them. -/
inductive Sequence where
  | single (x : Operand)
  | cons (x : Operand) (o : Operator) (place : Span) (rest : Sequence)

end

mutual

/-- The tokens of an operand. -/
def Operand.tokens : Operand → List Located
  | .atom a => a.tokens
  | .group first last before after inner => ⟨.mark .lparen, first⟩ ::
    (newlines before ++ (inner.tokens ++ (newlines after ++ [⟨.mark .rparen, last⟩])))

/-- The tokens of a sequence. -/
def Sequence.tokens : Sequence → List Located
  | .single x => x.tokens
  | .cons x o place rest => x.tokens ++ ⟨o.token, place⟩ :: rest.tokens

end

mutual

/-- The names in an operand. -/
def Operand.names : Operand → List String
  | .atom a => a.names
  | .group _ _ _ _ inner => inner.names

/-- The names in a sequence. -/
def Sequence.names : Sequence → List String
  | .single x => x.names
  | .cons x _ _ rest => x.names ++ rest.names

end

namespace Sequence

/-- The operators of a sequence, without those in parentheses. -/
def operators : Sequence → List Operator
  | single _ => []
  | cons _ o _ rest => o :: rest.operators

/-- Two sequences with an operator between them. -/
def append : Sequence → (o : Operator) → (place : Span) → Sequence → Sequence
  | single x, o, place, r => cons x o place r
  | cons x o' place' rest, o, place, r => cons x o' place' (rest.append o place r)

variable (o : Operator) (place : Span) (r : Sequence)

@[simp] theorem operators_append :
    ∀ q : Sequence, (q.append o place r).operators = q.operators ++ o :: r.operators
  | single _ => rfl
  | cons x o' place' rest => by simp [append, operators, operators_append rest]

@[simp] theorem tokens_append :
    ∀ q : Sequence, (q.append o place r).tokens = q.tokens ++ ⟨o.token, place⟩ :: r.tokens
  | single _ => by simp [append, tokens]
  | cons x o' place' rest => by simp [append, tokens, tokens_append rest]

@[simp] theorem names_append : ∀ q : Sequence, (q.append o place r).names = q.names ++ r.names
  | single _ => by simp [append, names]
  | cons x o' place' rest => by simp [append, names, names_append rest]

end Sequence

/-! ## Trees -/

/-- Trees over sequences. -/
inductive OperatorTree where
  | atom (a : Atom)
  | group (first last : Span) (before after : List Span) (inner : OperatorTree)
  | node (o : Operator) (place : Span) (left right : OperatorTree)

namespace OperatorTree

/-- The sequence of a tree. -/
def sequence : OperatorTree → Sequence
  | atom a => .single (.atom a)
  | group first last before after inner => .single (.group first last before after inner.sequence)
  | node o place l r => l.sequence.append o place r.sequence

/-- The level of the operator on top; operands are tighter than all operators. -/
def level : OperatorTree → Nat
  | node o _ _ _ => o.level
  | _ => 5

/-- **Ordered** trees: an operator is not tighter than those on its left, and looser than those on
its right. -/
def Ordered : OperatorTree → Prop
  | atom _ => True
  | group _ _ _ _ inner => inner.Ordered
  | node o _ l r => l.Ordered ∧ r.Ordered ∧ o.level ≤ l.level ∧ o.level < r.level

/-- Puts an operand in front of a tree: above the first operator on the left that is tighter. -/
def prepend (x : OperatorTree) (o : Operator) (place : Span) : OperatorTree → OperatorTree
  | node o' place' l r =>
    if o.level < o'.level then node o place x (node o' place' l r)
    else node o' place' (prepend x o place l) r
  | t => node o place x t

variable {x : OperatorTree} {o : Operator} {place : Span}

/-- The operand comes above a tree whose operators are all tighter. -/
theorem prepend_of_lt {t : OperatorTree} (h : o.level < t.level) :
    prepend x o place t = node o place x t := by
  cases t with
  | node o' place' l r => exact if_pos h
  | _ => rfl

theorem prepend_node_of_le {o' : Operator} {place' : Span} {l r : OperatorTree}
    (h : o'.level ≤ o.level) :
    prepend x o place (node o' place' l r) = node o' place' (prepend x o place l) r :=
  if_neg (Nat.not_lt.mpr h)

theorem sequence_prepend {y : Operand} (hx : x.sequence = .single y) :
    ∀ t : OperatorTree, (prepend x o place t).sequence = .cons y o place t.sequence
  | node o' place' l r => by
    by_cases h : o.level < o'.level
    · rw [prepend_of_lt h]
      exact congrArg (Sequence.append · o place _) hx
    · rw [prepend_node_of_le (Nat.not_lt.mp h), sequence, sequence_prepend hx l]
      rfl
  | atom _ | group _ _ _ _ _ => by
    rw [prepend_of_lt o.level_lt]
    exact congrArg (Sequence.append · o place _) hx

/-- **One operand more** keeps a tree ordered.  Its level is that of the tree or of the new
operator. -/
theorem ordered_prepend (hx : x.Ordered) (hlevel : x.level = 5) : ∀ t : OperatorTree, t.Ordered →
    (prepend x o place t).Ordered ∧ min o.level t.level ≤ (prepend x o place t).level
  | node o' place' l r, ht => by
    obtain ⟨hl, hr, hleft, hright⟩ := ht
    by_cases h : o.level < o'.level
    · rw [prepend_of_lt h]
      refine ⟨⟨hx, ⟨hl, hr, hleft, hright⟩, ?_, h⟩, Nat.min_le_left _ _⟩
      rw [hlevel]
      exact Nat.le_of_lt o.level_lt
    · obtain ⟨hordered, hmin⟩ := ordered_prepend hx hlevel l hl
      rw [prepend_node_of_le (Nat.not_lt.mp h)]
      refine ⟨⟨hordered, hr, ?_, hright⟩, Nat.min_le_right _ _⟩
      omega
  | atom _, ht | group _ _ _ _ _, ht => by
    have hless := o.level_lt
    rw [prepend_of_lt hless]
    exact ⟨⟨hx, ht, by omega, hless⟩, Nat.min_le_left _ _⟩

/-- No operator of the sequence is looser than the one on top. -/
theorem level_le_of_mem_operators : ∀ {t : OperatorTree}, t.Ordered → ∀ o ∈ t.sequence.operators,
    t.level ≤ o.level
  | node o' place l r, ⟨hl, hr, hleft, hright⟩, o, ho => by
    rw [sequence, Sequence.operators_append, List.mem_append, List.mem_cons] at ho
    show o'.level ≤ o.level
    rcases ho with ho | rfl | ho
    · exact Nat.le_trans hleft (level_le_of_mem_operators hl o ho)
    · exact Nat.le_refl _
    · exact Nat.le_trans (Nat.le_of_lt hright) (level_le_of_mem_operators hr o ho)

end OperatorTree

mutual

/-- The tree of an operand. -/
def Operand.tree : Operand → OperatorTree
  | .atom a => .atom a
  | .group first last before after inner => .group first last before after inner.tree

/-- The tree of a sequence: each operand is put in front of the tree of what follows it. -/
def Sequence.tree : Sequence → OperatorTree
  | .single x => x.tree
  | .cons x o place rest => .prepend x.tree o place rest.tree

end

theorem Operand.level_tree (x : Operand) : x.tree.level = 5 := by
  cases x <;> rw [tree] <;> rfl

mutual

theorem Operand.tree_spec : ∀ x : Operand, x.tree.Ordered ∧ x.tree.sequence = .single x
  | .atom a => by
    rw [Operand.tree]
    exact ⟨trivial, rfl⟩
  | .group first last before after inner => by
    obtain ⟨hordered, hsequence⟩ := Sequence.tree_spec inner
    rw [Operand.tree, OperatorTree.sequence, hsequence]
    exact ⟨hordered, rfl⟩

/-- The tree of a sequence is ordered, and it is one over this sequence. -/
theorem Sequence.tree_spec : ∀ r : Sequence, r.tree.Ordered ∧ r.tree.sequence = r
  | .single x => by
    rw [Sequence.tree]
    exact Operand.tree_spec x
  | .cons x o place rest => by
    obtain ⟨hx, hxsequence⟩ := Operand.tree_spec x
    obtain ⟨hrest, hsequence⟩ := Sequence.tree_spec rest
    rw [Sequence.tree, OperatorTree.sequence_prepend hxsequence, hsequence]
    exact ⟨(OperatorTree.ordered_prepend hx x.level_tree _ hrest).1, rfl⟩

end

/-- Behind operators that are not looser, an operator in front of tighter ones comes on top. -/
theorem Sequence.tree_append {o : Operator} {place : Span} {r : Sequence}
    (hr : o.level < r.tree.level) :
    ∀ q : Sequence, (∀ o' ∈ q.operators, o.level ≤ o'.level) →
      (q.append o place r).tree = .node o place q.tree r.tree
  | .single x, _ => by
    rw [append, tree, tree]
    exact OperatorTree.prepend_of_lt hr
  | .cons x o' place' rest, hq => by
    -- the operator is on top of what follows, and the operand goes into its left side
    obtain ⟨ho', hrest⟩ := List.forall_mem_cons.mp hq
    rw [append, tree, tree_append hr rest hrest, OperatorTree.prepend_node_of_le ho', tree]

/-- An ordered tree is the one that is built from its sequence. -/
theorem OperatorTree.tree_sequence : ∀ {t : OperatorTree}, t.Ordered → t.sequence.tree = t
  | .atom _, _ => by rw [sequence, Sequence.tree, Operand.tree]
  | .group first last before after inner, ht => by
    rw [sequence, Sequence.tree, Operand.tree, tree_sequence (t := inner) ht]
  | .node o place l r, ⟨hl, hr, hleft, hright⟩ => by
    have hl' := tree_sequence hl
    have hr' := tree_sequence hr
    rw [sequence, Sequence.tree_append (hr'.symm ▸ hright), hl', hr']
    exact fun o' ho' => Nat.le_trans hleft (level_le_of_mem_operators hl o' ho')

/-- **One ordered tree** there is over each sequence. -/
theorem Sequence.existsUnique_ordered (r : Sequence) :
    ∃! t : OperatorTree, t.Ordered ∧ t.sequence = r := by
  refine ⟨r.tree, r.tree_spec, ?_⟩
  rintro u ⟨hu, rfl⟩
  exact (OperatorTree.tree_sequence hu).symm

/-! ## Skeletons -/

/-- What is left of an expression without casts, types and places. -/
inductive Skeleton where
  | literal (value : Value)
  | name (name : String)
  | binary (op : BinaryOp) (left right : Skeleton)
  /-- What could not be read, such as a number out of range. -/
  | unread
  /-- Any other expression. -/
  | other

/-- An integer, unless it is out of range. -/
def Skeleton.ofInt (w : Width) (n : Int) : Skeleton :=
  match Word.ofInt? w n with
  | some v => literal (.integer w v)
  | none => unread

/-- The skeleton of an operand. -/
def Atom.skeleton : Atom → Skeleton
  | number _ w n => .ofInt w n
  | negative _ _ _ w n => .ofInt w (-n)
  | name _ x => .name x

/-- The skeleton of a tree, in which there are no parentheses. -/
def OperatorTree.skeleton : OperatorTree → Skeleton
  | atom a => a.skeleton
  | group _ _ _ _ inner => inner.skeleton
  | node o _ l r => .binary o.op l.skeleton r.skeleton

end Precedence

open Precedence in
/-- The skeleton of an expression. -/
def Expr.skeleton : Expr → Skeleton
  | literal _ v => .literal v
  | name _ x => .name x
  | binary _ op l r _ => .binary op l.skeleton r.skeleton
  | cast _ e _ => e.skeleton
  | error _ => .unread
  | _ => .other

end Packwright
