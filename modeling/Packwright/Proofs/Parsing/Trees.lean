import Packwright.Proofs.Parsing.Reading
import Packwright.Proofs.Parts
import Packwright.Tree.Typing

/-!
# The trees that reading builds

Reading gives every node of a tree its type, from the types of the names in scope.  `Expr.Built F Γ`
and `Stmt.Built F N Γ` have one case for each way in which a node comes about.  Nodes that could not
be resolved are among them: an operand has no type, a name is not in scope, or an issue was
reported, for which `F` stands.

* `resolveBinary?_spec`, `resolveUnary?_spec`: resolved operators are entries of the tables, and the
  casts lead to the kinds that the entries ask for.
* `Expr.Built.part`, `Stmt.Built.part`, `Stmt.Built.operand`: the parts of a tree that is built are
  built.
-/

namespace Packwright

/-! ## Operators and casts in the tables -/

namespace Kind

/-- The kind is the other one, or a cast leads from it to the other one. -/
def Reaches (k : Kind) : Option Cast → Kind → Prop
  | none, k' => k = k'
  | some c, k' => cast? k k' = some c

theorem mem_castSources_of_cast? {k k' : Kind} {c : Cast} (h : cast? k k' = some c) :
    c = ⟨k, k'⟩ ∧ k ∈ k'.castSources := by
  obtain ⟨source, hsource, rfl⟩ := List.mem_map.mp (List.mem_of_find?_eq_some h)
  obtain rfl : source = k := by simpa using List.find?_some h
  exact ⟨rfl, hsource⟩

theorem mem_operations_of_operation? {k k' : Kind} {op : BinaryOp} {o : Operation}
    (h : operation? k op k' = some o) : o ∈ k.operations ∧ o.op = op ∧ o.right = k' := by
  have hfound := List.find?_some h
  simp only [Bool.and_eq_true, decide_eq_true_eq] at hfound
  exact ⟨List.mem_of_find?_eq_some h, hfound⟩

theorem mem_members_of_member? {k : Kind} {name : String} {m : Member}
    (h : member? k name = some m) : m ∈ k.members ∧ (m.name = some name ∨ m.name = none) := by
  rcases Option.or_eq_some_iff.mp h with h | ⟨-, h⟩
  · exact ⟨List.mem_of_find?_eq_some h, Or.inl (by simpa using List.find?_some h)⟩
  · exact ⟨List.mem_of_find?_eq_some h, Or.inr (by simpa using List.find?_some h)⟩

end Kind

/-- What it means that an operator is an entry of the tables for two kinds, which casts lead to. -/
def Resolved.Fits (k : Kind) (op : BinaryOp) (k' : Kind) (res : Resolved) : Prop :=
  ∃ left, k.Reaches res.leftCast left ∧ k'.Reaches res.rightCast res.operation.right ∧
    res.operation ∈ left.operations ∧ res.operation.op = op

theorem castRight?_spec {k k' : Kind} {op : BinaryOp} {res : Resolved}
    (h : castRight? k op k' = some res) : res.Fits k op k' := by
  obtain ⟨o, hmem, hres⟩ := List.exists_of_findSome?_eq_some h
  obtain ⟨c, hc, rfl⟩ := Option.map_eq_some_iff.mp hres
  obtain ⟨hmem, hop⟩ := List.mem_filter.mp hmem
  exact ⟨k, rfl, hc, hmem, of_decide_eq_true hop⟩

theorem castLeft?_spec {k k' : Kind} {op : BinaryOp} {res : Resolved}
    (h : castLeft? k op k' = some res) : res.Fits k op k' := by
  obtain ⟨target, -, h⟩ := List.exists_of_findSome?_eq_some h
  obtain ⟨c, hc, h⟩ := Option.bind_eq_some_iff.mp h
  obtain ⟨o, hmem, h⟩ := List.exists_of_findSome?_eq_some h
  obtain ⟨hmem, hop⟩ := List.mem_filter.mp hmem
  split at h
  · rename_i hright
    cases h
    exact ⟨target, hc, hright.symm, hmem, of_decide_eq_true hop⟩
  · obtain ⟨d, hd, rfl⟩ := Option.map_eq_some_iff.mp h
    exact ⟨target, hc, hd, hmem, of_decide_eq_true hop⟩

/-- **Operators between two operands** that are found are entries of the tables. -/
theorem resolveBinary?_spec {k k' : Kind} {op : BinaryOp} {res : Resolved}
    (h : resolveBinary? k op k' = some res) : res.Fits k op k' := by
  unfold resolveBinary? at h
  split at h
  · rename_i o ho
    cases h
    obtain ⟨hmem, hop, hright⟩ := Kind.mem_operations_of_operation? ho
    exact ⟨k, rfl, hright.symm, hmem, hop⟩
  · rcases Option.or_eq_some_iff.mp h with h | ⟨-, h⟩
    · exact castRight?_spec h
    · exact castLeft?_spec h

/-- **Operators in front of an operand** that are found are entries of the tables. -/
theorem resolveUnary?_spec {k : Kind} {op : UnaryOp} {c : Option Cast} {o : UnaryOperation}
    (h : resolveUnary? k op = some (c, o)) :
    ∃ operand, k.Reaches c operand ∧ o ∈ operand.unaryOperations ∧ o.op = op := by
  unfold resolveUnary? at h
  split at h
  · rename_i o' ho
    cases h
    exact ⟨k, rfl, List.mem_of_find?_eq_some ho, by simpa using List.find?_some ho⟩
  · obtain ⟨target, -, h⟩ := List.exists_of_findSome?_eq_some h
    obtain ⟨d, hd, h⟩ := Option.bind_eq_some_iff.mp h
    obtain ⟨o', ho, h⟩ := Option.map_eq_some_iff.mp h
    cases h
    exact ⟨target, hd, List.mem_of_find?_eq_some ho, by simpa using List.find?_some ho⟩

/-- Whether an operator joins two operands, rather than to store into the first one. -/
def BinaryOp.joins : BinaryOp → Bool
  | .assign | .update _ => false
  | _ => true

/-! ## Expressions -/

namespace Expr

theorem isError_iff {e : Expr} : e.isError = true ↔ e.kind = .error := decide_eq_true_iff

theorem info_withInfo (i : Info) (e : Expr) : (e.withInfo i).info = i := by
  cases e <;> rfl

theorem withInfo_withInfo (i j : Info) (e : Expr) : (e.withInfo i).withInfo j = e.withInfo j := by
  cases e <;> rfl

theorem kind_moved (e : Expr) (span : Span) : (e.moved span).kind = e.kind := by
  rw [kind, moved, info_withInfo]
  rfl

theorem kind_casted {e : Expr} {c : Option Cast} {k : Kind} (h : e.kind.Reaches c k) :
    (e.casted c).kind = k := by
  cases c with
  | none => exact h
  | some c => rw [(Kind.mem_castSources_of_cast? h).1]; rfl

/-- The expression is one that reading builds where the names in scope have the types of `Γ`.  Where
`F` holds, an issue may have been reported.  Only an operand, for which the flag stands, can be a
cast. -/
inductive Built (F : Prop) (Γ : TypeEnv) : Bool → Expr → Prop
  | literal {b : Bool} {i : Info} {v : Value} (hty : i.ty = .plain v.kind) :
    Built F Γ b (.literal i v)
  | name {b : Bool} {i : Info} {x : String} (hx : Γ x = some i.ty) : Built F Γ b (.name i x)
  | unknown {b : Bool} {i : Info} {x : String} (hx : Γ x = none) (hty : i.ty = .unresolved) :
    Built F Γ b (.name i x)
  | binary {b : Bool} {i : Info} {op : BinaryOp} {l r : Expr} {res : Resolved}
    (hl : Built F Γ false l) (hr : Built F Γ false r) (hop : op.joins = true)
    (hres : resolveBinary? l.kind op r.kind = some res) (hty : i.ty = .plain res.operation.result) :
    Built F Γ b (.binary i op (l.casted res.leftCast) (r.casted res.rightCast) (some res.operation))
  | failedBinary {b : Bool} {i : Info} {op : BinaryOp} {l r : Expr} (hl : Built F Γ false l)
    (hr : Built F Γ false r) (h : (l.isError = true ∨ r.isError = true) ∨ F)
    (hty : i.ty = .unresolved) : Built F Γ b (.binary i op l r none)
  | unary {b : Bool} {i : Info} {op : UnaryOp} {e : Expr} {c : Option Cast} {o : UnaryOperation}
    (he : Built F Γ false e) (hres : resolveUnary? e.kind op = some (c, o))
    (hty : i.ty = .plain o.result) : Built F Γ b (.unary i op (e.casted c) (some o))
  | failedUnary {b : Bool} {i : Info} {op : UnaryOp} {e : Expr} (he : Built F Γ false e)
    (h : e.isError = true ∨ F) (hty : i.ty = .unresolved) : Built F Γ b (.unary i op e none)
  | cast {i : Info} {e : Expr} {c : Cast} (he : Built F Γ false e)
    (hc : Kind.cast? e.kind c.target = some c) (hty : i.ty = .plain c.target) :
    Built F Γ true (.cast i e c)
  | range {b : Bool} {i : Info} {min max : Option Expr} (hmin : ∀ e ∈ min, Built F Γ true e)
    (hmax : ∀ e ∈ max, Built F Γ true e) (hkinds : ∀ e, e ∈ min ∨ e ∈ max → e.kind = .int)
    (hty : i.ty = .plain .range) : Built F Γ b (.range i min max)
  | failedRange {b : Bool} {i : Info} {min max : Option Expr} (hmin : ∀ e ∈ min, Built F Γ true e)
    (hmax : ∀ e ∈ max, Built F Γ true e)
    (h : (∃ e, (e ∈ min ∨ e ∈ max) ∧ e.isError = true) ∨ F) (hty : i.ty = .unresolved) :
    Built F Γ b (.range i min max)
  | list {b : Bool} {i : Info} {items : List Expr} (hitems : ∀ e ∈ items, Built F Γ false e)
    (hty : i.ty.kind = .list) : Built F Γ b (.list i items)
  | compound {b : Bool} {i : Info} {entries : List (String × Expr)}
    (hentries : ∀ entry ∈ entries, Built F Γ false entry.2) (hty : i.ty = .plain .compound) :
    Built F Γ b (.compound i entries)
  | member {b : Bool} {i : Info} {e : Expr} {name : String} {m : Member} {args : List Expr}
    (he : Built F Γ false e) (hm : Kind.member? e.kind name = some m)
    (hargs : ∀ a ∈ args, Built F Γ true a) (hty : i.ty = .plain m.result) :
    Built F Γ b (.member i e name m args)
  | dataPath {b : Bool} {i : Info} {e : Expr} {path : String} (he : Built F Γ false e)
    (hkind : e.kind = .selector) (hty : i.ty = .plain .data) : Built F Γ b (.dataPath i e path)
  | variant {b : Bool} {i : Info} {enum name : String} (hty : i.ty = .enum enum) :
    Built F Γ b (.variant i enum name)
  | call {b : Bool} {i : Info} {target : CallTarget} (hty : i.ty = .plain .void) :
    Built F Γ b (.call i target)
  | error {b : Bool} {i : Info} (h : F) (hty : i.ty = .unresolved) : Built F Γ b (.error i)
  | failed {b : Bool} {e e' : Expr} {i : Info} (he : Built F Γ b e) (he' : e' = e.withInfo i)
    (h : F) (hty : i.ty = .unresolved) : Built F Γ b e'

namespace Built

variable {F : Prop} {Γ : TypeEnv} {b : Bool} {e : Expr}

/-- A node may stand at another place. -/
theorem withInfo (h : e.Built F Γ b) {i : Info} (hi : i.ty = e.ty) :
    (e.withInfo i).Built F Γ b := by
  cases h with
  | literal hty => exact .literal (hi.trans hty)
  | name hx => exact .name (hx.trans (congrArg some hi.symm))
  | unknown hx hty => exact .unknown hx (hi.trans hty)
  | binary hl hr hop hres hty => exact .binary hl hr hop hres (hi.trans hty)
  | failedBinary hl hr h hty => exact .failedBinary hl hr h (hi.trans hty)
  | unary he hres hty => exact .unary he hres (hi.trans hty)
  | failedUnary he h hty => exact .failedUnary he h (hi.trans hty)
  | cast he hc hty => exact .cast he hc (hi.trans hty)
  | range hmin hmax hkinds hty => exact .range hmin hmax hkinds (hi.trans hty)
  | failedRange hmin hmax h hty => exact .failedRange hmin hmax h (hi.trans hty)
  | list hitems hty => exact .list hitems ((congrArg Ty.kind hi).trans hty)
  | compound hentries hty => exact .compound hentries (hi.trans hty)
  | member he hm hargs hty => exact .member he hm hargs (hi.trans hty)
  | dataPath he hkind hty => exact .dataPath he hkind (hi.trans hty)
  | variant hty => exact .variant (hi.trans hty)
  | call hty => exact .call (hi.trans hty)
  | error h hty => exact .error h (hi.trans hty)
  | failed he he' h hty =>
    subst he'
    refine .failed he (withInfo_withInfo _ _ _) h ?_
    exact hi.trans ((congrArg Info.ty (info_withInfo _ _)).trans hty)

theorem moved (h : e.Built F Γ b) (span : Span) : (e.moved span).Built F Γ b := h.withInfo rfl

theorem ofValue (v : Value) (span : Span) : (Expr.ofValue v span).Built F Γ b := .literal rfl

/-- Every expression can be an operand. -/
theorem operand (h : e.Built F Γ b) : e.Built F Γ true := by
  induction h with
  | literal hty => exact .literal hty
  | name hx => exact .name hx
  | unknown hx hty => exact .unknown hx hty
  | binary hl hr hop hres hty => exact .binary hl hr hop hres hty
  | failedBinary hl hr h hty => exact .failedBinary hl hr h hty
  | unary he hres hty => exact .unary he hres hty
  | failedUnary he h hty => exact .failedUnary he h hty
  | cast he hc hty => exact .cast he hc hty
  | range hmin hmax hkinds hty => exact .range hmin hmax hkinds hty
  | failedRange hmin hmax h hty => exact .failedRange hmin hmax h hty
  | list hitems hty => exact .list hitems hty
  | compound hentries hty => exact .compound hentries hty
  | member he hm hargs hty => exact .member he hm hargs hty
  | dataPath he hkind hty => exact .dataPath he hkind hty
  | variant hty => exact .variant hty
  | call hty => exact .call hty
  | error h hty => exact .error h hty
  | failed he he' h hty ih => exact .failed ih he' h hty

theorem casted (h : e.Built F Γ false) {c : Option Cast} {k : Kind} (hc : e.kind.Reaches c k) :
    (e.casted c).Built F Γ true := by
  cases c with
  | none => exact h.operand
  | some c =>
    obtain rfl : c.target = k := by rw [(Kind.mem_castSources_of_cast? hc).1]
    exact .cast h hc rfl

/-- **The parts** of an expression that reading builds are such expressions. -/
theorem child (h : e.Built F Γ b) : ∀ c ∈ e.children, c.Built F Γ true := by
  induction h with
  | binary hl hr hop hres hty =>
    obtain ⟨left, hleft, hright, -, -⟩ := resolveBinary?_spec hres
    intro c hc
    rcases List.mem_pair.mp hc with rfl | rfl
    · exact hl.casted hleft
    · exact hr.casted hright
  | failedBinary hl hr h hty =>
    intro c hc
    rcases List.mem_pair.mp hc with rfl | rfl
    · exact hl.operand
    · exact hr.operand
  | unary he hres hty =>
    obtain ⟨operand, hoperand, -, -⟩ := resolveUnary?_spec hres
    intro c hc
    obtain rfl := List.mem_singleton.mp hc
    exact he.casted hoperand
  | failedUnary he h hty | cast he hc hty | dataPath he hkind hty =>
    intro c hc
    obtain rfl := List.mem_singleton.mp hc
    exact he.operand
  | range hmin hmax _ hty | failedRange hmin hmax _ hty =>
    intro c hc
    rcases List.mem_append.mp hc with hc | hc
    · exact hmin c (Option.mem_toList.mp hc)
    · exact hmax c (Option.mem_toList.mp hc)
  | list hitems hty => exact fun c hc => (hitems c hc).operand
  | compound hentries hty =>
    intro c hc
    obtain ⟨entry, hentry, rfl⟩ := List.mem_map.mp hc
    exact (hentries entry hentry).operand
  | member he hm hargs hty =>
    intro c hc
    rcases List.mem_cons.mp hc with rfl | hc
    · exact he.operand
    · exact hargs c hc
  | failed he he' h hty ih =>
    rw [he', children_withInfo]
    exact ih
  | literal | name | unknown | variant | call | error =>
    intro c hc
    cases hc

theorem part (h : e.Built F Γ b) {p : Expr} (hp : p.Part e) : p.Built F Γ true := by
  induction hp generalizing b with
  | self => exact h.operand
  | child hc _ ih => exact ih (h.child _ hc)

theorem asCondition (h : e.Built F Γ false) : (Parse.asCondition e).Built F Γ true := by
  unfold Parse.asCondition
  split
  · exact h.operand
  · cases hcast : Kind.cast? e.kind .condition with
    | none => exact h.operand
    | some k => exact h.casted (k := .condition) hcast

end Built

end Expr

/-! ## Statements -/

/-- A value and the operator that stores it into a score. -/
inductive Stored (F : Prop) (Γ : TypeEnv) (op : BinaryOp) : Expr → Option Operation → Prop
  | resolved {e : Expr} {o : Operation} {c : Option Cast} (he : e.Built F Γ false)
    (hres : resolveBinary? .score op e.kind = some ⟨o, none, c⟩) :
    Stored F Γ op (e.casted c) (some o)
  | failed {e : Expr} (he : e.Built F Γ false) (h : e.isError = true ∨ F) : Stored F Γ op e none

theorem Stored.built {F : Prop} {Γ : TypeEnv} {op : BinaryOp} {e : Expr} {o : Option Operation}
    (h : Stored F Γ op e o) : e.Built F Γ true := by
  cases h with
  | resolved he hres =>
    obtain ⟨-, -, hright, -, -⟩ := resolveBinary?_spec hres
    exact he.casted hright
  | failed he _ => exact he.operand

mutual

/-- The statement is one that reading builds where the names in scope have the types of `Γ`; behind
it they have those of `Γ'`.  The names that are declared satisfy `N`. -/
inductive Stmt.Built (F : Prop) (N : String → Prop) : TypeEnv → Stmt → TypeEnv → Prop
  | letPlain {Γ : TypeEnv} {span : Span} {x : Declared} {e : Expr} (hx : N x.name)
    (he : e.Built F Γ false) :
    Stmt.Built F N Γ (.letBinding span x e) (Γ.declare x.name e.ty)
  | letTyped {Γ : TypeEnv} {span : Span} {x : Declared} {e : Expr} {ty : Ty} (hx : N x.name)
    (he : e.Built F Γ true) (hty : ty.isError = false)
    (hkind : (e.isError = true ∨ e.kind = ty.kind) ∨ F) :
    Stmt.Built F N Γ (.letBinding span x e) (Γ.declare x.name ty)
  | varPlain {Γ : TypeEnv} {span : Span} {x : Declared} (hx : N x.name) :
    Stmt.Built F N Γ (.var span x none none) (Γ.declare x.name (.plain .score))
  | var {Γ : TypeEnv} {span : Span} {x : Declared} {e : Expr} {o : Option Operation} (hx : N x.name)
    (he : Stored F Γ .assign e o) :
    Stmt.Built F N Γ (.var span x (some e) o) (Γ.declare x.name (.plain .score))
  | assign {Γ : TypeEnv} {span : Span} {target e : Expr} {op : BinaryOp} {o : Option Operation}
    (htarget : target.Built F Γ false) (hkind : target.kind = .score) (he : Stored F Γ op e o) :
    Stmt.Built F N Γ (.assign span target op e o) Γ
  | misassign {Γ : TypeEnv} {span : Span} {target e : Expr} {op : BinaryOp}
    (htarget : target.Built F Γ false) (hkind : target.kind ≠ .score) (he : e.Built F Γ false) :
    Stmt.Built F N Γ (.assign span target op e none) Γ
  | expr {Γ : TypeEnv} {span : Span} {e : Expr} (he : e.Built F Γ false) :
    Stmt.Built F N Γ (.expr span e) Γ
  | block {Γ Γ' : TypeEnv} {span : Span} {body : List Stmt} (hbody : BodyBuilt F N Γ body Γ') :
    Stmt.Built F N Γ (.block span body) Γ
  | ifThen {Γ Γ' : TypeEnv} {span : Span} {e : Expr} {t : Stmt} (he : e.Built F Γ false)
    (ht : Stmt.Built F N Γ t Γ') :
    Stmt.Built F N Γ (.ifElse span (Parse.asCondition e) t none) Γ
  | ifElse {Γ Γ' Γ'' : TypeEnv} {span : Span} {e : Expr} {t u : Stmt} (he : e.Built F Γ false)
    (ht : Stmt.Built F N Γ t Γ') (hu : Stmt.Built F N Γ u Γ'') :
    Stmt.Built F N Γ (.ifElse span (Parse.asCondition e) t (some u)) Γ
  | while {Γ Γ' : TypeEnv} {span : Span} {e : Expr} {t : Stmt} (he : e.Built F Γ false)
    (ht : Stmt.Built F N Γ t Γ') :
    Stmt.Built F N Γ (.while span (Parse.asCondition e) t) Γ
  | function {Γ Γ' : TypeEnv} {span : Span} {x : Declared} {annotations : List Annotation}
    {body : List Stmt} (hx : N x.name) (hbody : BodyBuilt F N Γ body Γ') :
    Stmt.Built F N Γ (.function span x annotations body) Γ
  | enum {Γ : TypeEnv} {span : Span} {x : Declared} {variants : List String} :
    Stmt.Built F N Γ (.enum span x variants) Γ
  | context {Γ Γ' : TypeEnv} {span : Span} {kind : ContextKind} {e : Expr} {t : Stmt}
    (he : e.Built F Γ true) (ht : Stmt.Built F N Γ t Γ') :
    Stmt.Built F N Γ (.context span kind e t) Γ
  | command {Γ : TypeEnv} {span : Span} {command : Command}
    (h : ∀ e ∈ command.operands, e.Built F Γ true) : Stmt.Built F N Γ (.command span command) Γ
  | return {Γ : TypeEnv} {span : Span} : Stmt.Built F N Γ (.return span) Γ
  | error {Γ Γ' : TypeEnv} {span : Span} (h : F) : Stmt.Built F N Γ (.error span) Γ'

/-- The statements are such that reading builds one after the other. -/
inductive BodyBuilt (F : Prop) (N : String → Prop) : TypeEnv → List Stmt → TypeEnv → Prop
  | nil {Γ : TypeEnv} : BodyBuilt F N Γ [] Γ
  | cons {Γ Γ' Γ'' : TypeEnv} {t : Stmt} {ts : List Stmt} (ht : Stmt.Built F N Γ t Γ')
    (hts : BodyBuilt F N Γ' ts Γ'') : BodyBuilt F N Γ (t :: ts) Γ''

end

theorem BodyBuilt.append {F : Prop} {N : String → Prop} {Γ Γ' Γ'' : TypeEnv} {ts us : List Stmt}
    (hts : BodyBuilt F N Γ ts Γ') (hus : BodyBuilt F N Γ' us Γ'') :
    BodyBuilt F N Γ (ts ++ us) Γ'' := by
  induction ts generalizing Γ with
  | nil =>
    cases hts
    exact hus
  | cons t ts ih =>
    cases hts with
    | cons ht hts => exact .cons ht (ih hts)

section Parts

variable {F : Prop} {N : String → Prop} {Γ Γ' : TypeEnv}

theorem BodyBuilt.of_mem {ts : List Stmt} (h : BodyBuilt F N Γ ts Γ') {t : Stmt} (ht : t ∈ ts) :
    ∃ Γ₁ Γ₂, t.Built F N Γ₁ Γ₂ := by
  induction ts generalizing Γ with
  | nil => cases ht
  | cons u us ih =>
    cases h with
    | cons hu hus =>
      rcases List.mem_cons.mp ht with rfl | ht
      · exact ⟨_, _, hu⟩
      · exact ih hus ht

namespace Stmt.Built

variable {t : Stmt}

/-- The statements in a statement that reading builds are such statements. -/
theorem child (h : t.Built F N Γ Γ') {u : Stmt} (hu : u ∈ t.children) :
    ∃ Γ₁ Γ₂, u.Built F N Γ₁ Γ₂ := by
  cases h with
  | block hbody | function _ hbody => exact hbody.of_mem hu
  | ifThen _ ht | «while» _ ht | context _ ht =>
    obtain rfl := List.mem_singleton.mp hu
    exact ⟨_, _, ht⟩
  | ifElse _ ht ht' =>
    rcases List.mem_pair.mp hu with rfl | rfl
    · exact ⟨_, _, ht⟩
    · exact ⟨_, _, ht'⟩
  | letPlain | letTyped | varPlain | var | assign | misassign | expr | enum | command | «return»
  | error => cases hu

theorem part (h : t.Built F N Γ Γ') {u : Stmt} (hu : u.Part t) : ∃ Γ₁ Γ₂, u.Built F N Γ₁ Γ₂ := by
  induction hu generalizing Γ Γ' with
  | self => exact ⟨Γ, Γ', h⟩
  | child hc _ ih =>
    obtain ⟨Γ₁, Γ₂, hc⟩ := h.child hc
    exact ih hc

/-- The expressions of a statement that reading builds are built from the names in scope. -/
theorem operand (h : t.Built F N Γ Γ') {e : Expr} (he : e ∈ t.operands) : e.Built F Γ true := by
  cases h with
  | letPlain _ hbuilt | expr hbuilt =>
    obtain rfl := List.mem_singleton.mp he
    exact hbuilt.operand
  | letTyped _ hbuilt | context hbuilt =>
    obtain rfl := List.mem_singleton.mp he
    exact hbuilt
  | var _ hstored =>
    obtain rfl := List.mem_singleton.mp he
    exact hstored.built
  | assign htarget _ hstored =>
    rcases List.mem_pair.mp he with rfl | rfl
    · exact htarget.operand
    · exact hstored.built
  | misassign htarget _ hvalue =>
    rcases List.mem_pair.mp he with rfl | rfl
    · exact htarget.operand
    · exact hvalue.operand
  | ifThen hbuilt | ifElse hbuilt | «while» hbuilt =>
    obtain rfl := List.mem_singleton.mp he
    exact hbuilt.asCondition
  | command hoperands => exact hoperands e he
  | varPlain | block | function | enum | «return» | error => cases he

end Stmt.Built

end Parts

end Packwright
