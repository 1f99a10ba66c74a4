import Packwright.Tree.Stmt
import Mathlib.Data.List.Basic
import Mathlib.Order.WellFounded

/-!
# The parts of trees

* `Expr.children`, `Expr.Part`: the expressions in an expression; `Expr.parts` lists them.
* `Stmt.operands`, `Stmt.children`, `Stmt.Part`: the expressions and the statements in a statement.
* `Expr.induction_children`: what passes from the children to a node holds of every expression.
-/

namespace Packwright

namespace Expr

/-- The parts of a node. -/
def children : Expr → List Expr
  | binary _ _ l r _ => [l, r]
  | unary _ _ e _ | cast _ e _ | dataPath _ e _ => [e]
  | range _ l h => l.toList ++ h.toList
  | list _ es => es
  | compound _ es => es.map Prod.snd
  | member _ e _ _ as => e :: as
  | literal _ _ | name _ _ | variant _ _ _ | call _ _ | error _ => []

/-- An expression is part of another one, or is that one. -/
inductive Part (p : Expr) : Expr → Prop
  | self : Part p p
  | child {c e : Expr} (hc : c ∈ e.children) (h : Part p c) : Part p e

theorem children_withInfo (i : Info) (e : Expr) : (e.withInfo i).children = e.children := by
  cases e <;> rfl

theorem sizeOf_lt_of_mem_children {c e : Expr} (h : c ∈ e.children) : sizeOf c < sizeOf e := by
  cases e with
  | binary i op l r o => rcases List.mem_pair.mp h with rfl | rfl <;> simp <;> omega
  | unary i op e o | cast i e k | dataPath i e path =>
    obtain rfl := List.mem_singleton.mp h
    simp
    omega
  | range i l r =>
    rcases List.mem_append.mp h with h | h
    all_goals
      obtain rfl := Option.mem_toList.mp h
      simp
      omega
  | list i es =>
    have hc : c ∈ es := h
    have := List.sizeOf_lt_of_mem hc
    simp
    omega
  | compound i es =>
    obtain ⟨⟨key, c⟩, hc, rfl⟩ := List.mem_map.mp h
    have := List.sizeOf_lt_of_mem hc
    simp at this ⊢
    omega
  | member i e name m as =>
    rcases List.mem_cons.mp h with rfl | h
    · simp
      omega
    · have := List.sizeOf_lt_of_mem h
      simp
      omega
  | literal | name | variant | call | error => cases h

/-- What passes from the children to a node holds of every expression. -/
theorem induction_children {motive : Expr → Prop}
    (h : ∀ e, (∀ c ∈ e.children, motive c) → motive e) (e : Expr) : motive e :=
  (measure (sizeOf : Expr → Nat)).wf.induction e fun e ih =>
    h e fun c hc => ih c (sizeOf_lt_of_mem_children hc)

/-- Plain integers are written out. -/
theorem eq_literal_of_constant? {e : Expr} {n : Amount} (h : e.constant? = some (.integer .int n)) :
    ∃ i, e = .literal i (.integer .int n) := by
  cases e with
  | literal i v =>
    obtain rfl := Option.some.inj h
    exact ⟨i, rfl⟩
  | list i es =>
    obtain ⟨vs, -, hvs⟩ := Option.map_eq_some_iff.mp h
    cases hvs
  | compound i es =>
    obtain ⟨vs, -, hvs⟩ := Option.map_eq_some_iff.mp h
    cases hvs
  | range i l u =>
    rw [constant?] at h
    split at h <;> cases h
  | _ => cases h

mutual

/-- All parts of an expression. -/
def parts : Expr → List Expr
  | literal i v => [literal i v]
  | name i x => [name i x]
  | binary i op l r o => binary i op l r o :: (parts l ++ parts r)
  | unary i op e o => unary i op e o :: parts e
  | cast i e c => cast i e c :: parts e
  | range i l h => range i l h :: (partsOfBound l ++ partsOfBound h)
  | list i es => list i es :: partsOfAll es
  | compound i es => compound i es :: partsOfEntries es
  | member i e x m as => member i e x m as :: (parts e ++ partsOfAll as)
  | dataPath i e path => dataPath i e path :: parts e
  | variant i e x => [variant i e x]
  | call i target => [call i target]
  | error i => [error i]

/-- All parts of several expressions. -/
def partsOfAll : List Expr → List Expr
  | [] => []
  | e :: es => parts e ++ partsOfAll es

/-- All parts of the entries of a compound. -/
def partsOfEntries : List (String × Expr) → List Expr
  | [] => []
  | (_, e) :: es => parts e ++ partsOfEntries es

/-- All parts of a bound of a range. -/
def partsOfBound : Option Expr → List Expr
  | none => []
  | some e => parts e

end

theorem mem_partsOfAll {p : Expr} {es : List Expr} :
    p ∈ partsOfAll es ↔ ∃ c ∈ es, p ∈ c.parts := by
  induction es with
  | nil => simp [partsOfAll]
  | cons e es ih => simp [partsOfAll, ih]

theorem mem_partsOfEntries {p : Expr} {es : List (String × Expr)} :
    p ∈ partsOfEntries es ↔ ∃ c ∈ es.map Prod.snd, p ∈ c.parts := by
  induction es with
  | nil => simp [partsOfEntries]
  | cons e es ih => simp [partsOfEntries, ih]

theorem mem_partsOfBound {p : Expr} {o : Option Expr} :
    p ∈ partsOfBound o ↔ ∃ c ∈ o.toList, p ∈ c.parts := by
  cases o <;> simp [partsOfBound]

theorem mem_parts_iff {p e : Expr} : p ∈ e.parts ↔ p = e ∨ ∃ c ∈ e.children, p ∈ c.parts := by
  cases e <;>
    simp [parts, children, mem_partsOfAll, mem_partsOfEntries, mem_partsOfBound, or_and_right,
      exists_or]

/-- The parts of an expression can be listed. -/
theorem mem_parts {p e : Expr} : p ∈ e.parts ↔ p.Part e := by
  constructor
  · induction e using induction_children with
    | h e ih =>
      intro hp
      rcases mem_parts_iff.mp hp with rfl | ⟨c, hc, hp⟩
      · exact .self
      · exact .child hc (ih c hc hp)
  · intro hp
    induction hp with
    | self => exact mem_parts_iff.mpr (.inl rfl)
    | child hc _ ih => exact mem_parts_iff.mpr (.inr ⟨_, hc, ih⟩)

instance (e : Expr) (Q : Expr → Prop) [DecidablePred Q] : Decidable (∀ p : Expr, p.Part e → Q p) :=
  decidable_of_iff (∀ p ∈ e.parts, Q p) (forall_congr' fun _ => imp_congr_left mem_parts)

end Expr

/-- The expressions of a command. -/
def Command.operands : Command → List Expr
  | say e | raw e | tag e _ _ => [e]
  | tellraw target parts => target :: parts
  | give target item count => target :: item :: count.toList
  | kill target => target.toList
  | summon entity data => entity :: data.toList

namespace Stmt

/-- The statements in a statement. -/
def children : Stmt → List Stmt
  | block _ body | function _ _ _ body => body
  | ifElse _ _ t u => t :: u.toList
  | .while _ _ t | context _ _ _ t => [t]
  | letBinding _ _ _ | var _ _ _ _ | assign _ _ _ _ _ | expr _ _ | enum _ _ _ | command _ _
  | .return _ | error _ => []

/-- The expressions of a statement. -/
def operands : Stmt → List Expr
  | letBinding _ _ e | expr _ e | ifElse _ e _ _ | .while _ e _ | context _ _ e _ => [e]
  | var _ _ e _ => e.toList
  | assign _ target _ e _ => [target, e]
  | command _ c => c.operands
  | block _ _ | function _ _ _ _ | enum _ _ _ | .return _ | error _ => []

/-- A statement is part of another one, or is that one. -/
inductive Part (p : Stmt) : Stmt → Prop
  | self : Part p p
  | child {c t : Stmt} (hc : c ∈ t.children) (h : Part p c) : Part p t

end Stmt

/-- A statement stands somewhere in a script. -/
def Script.Contains (s : Script) (t : Stmt) : Prop := ∃ u ∈ s.body, t.Part u

end Packwright
