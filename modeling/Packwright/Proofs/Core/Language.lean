import Packwright.Proofs.Words
import Packwright.Tree.Stmt

/-!
# The structured core of the language

The core is the part of the language that is about integers and truth values alone: variables with a
first value, assignments, blocks, conditionals, loops and `say`.  An interpreter gives its meaning.
Names are looked up from the innermost scope outwards, and numbers are the amounts of scores: they
wrap around, division rounds down, and what is divided by zero stays as it is.

* `Number`, `Truth`, `Statement`: the syntax.
* `exec`: the interpreter.  It runs out of fuel, or it finds the state behind the statement.
* `Runs`: with enough fuel, the interpreter finds that state.  One rule for each statement.
* `Stmt.core?`: the core statement that a statement of a script is, whatever casts the tree has.
-/

namespace Packwright

namespace Core

/-! ## Syntax -/

/-- Integer expressions. -/
inductive Number where
  | literal (n : Amount)
  | variable (x : String)
  | arith (op : Arith) (a b : Number)
  | negate (a : Number)

/-- Conditions.  A variable holds if it is not zero. -/
inductive Truth where
  | constant (b : Bool)
  | variable (x : String)
  | relate (r : Relation) (a b : Number)
  | within (a : Number) (range : Range)
  | both (a b : Truth)
  | either (a b : Truth)
  | opposite (a : Truth)

/-- What a variable can be given: a number, or 1 or 0 for a condition. -/
inductive Operand where
  | number (a : Number)
  | truth (c : Truth)

/-- Statements. -/
inductive Statement where
  | declare (x : String) (e : Operand)
  | assign (x : String) (e : Operand)
  | update (x : String) (op : Arith) (e : Number)
  | block (body : List Statement)
  | ifElse (c : Truth) (thenBranch : Statement) (elseBranch : Option Statement)
  | while (c : Truth) (body : Statement)
  | say (text : String)

/-! ## Meaning -/

/-- The amount that an integer wraps around to. -/
def wrap (n : Int) : Amount := BitVec.ofInt _ n

/-- The operators on integers.  Division rounds down; by zero it leaves the dividend. -/
def arithmetic (op : Arith) (a b : Int) : Int :=
  match op with
  | .add => a + b
  | .sub => a - b
  | .mul => a * b
  | .div => if b = 0 then a else a.fdiv b
  | .mod => if b = 0 then a else a.fmod b

/-- The relations between integers. -/
def related (r : Relation) (a b : Int) : Bool :=
  match r with
  | .lt => a < b
  | .le => a ≤ b
  | .gt => b < a
  | .ge => b ≤ a
  | .eq => a = b
  | .ne => a ≠ b

/-- The values of names. -/
abbrev Env := String → Option Amount

/-- The value of a number; there is none for a name without a value. -/
def Number.eval (env : Env) : Number → Option Amount
  | .literal n => some n
  | .variable x => env x
  | .arith op a b => do
    let m ← a.eval env
    let n ← b.eval env
    return wrap (arithmetic op m.toInt n.toInt)
  | .negate a => do return wrap (-(← a.eval env).toInt)

/-- The truth of a condition. -/
def Truth.eval (env : Env) : Truth → Option Bool
  | .constant b => some b
  | .variable x => do return (← env x).toInt ≠ 0
  | .relate r a b => do
    let m ← a.eval env
    let n ← b.eval env
    return related r m.toInt n.toInt
  | .within a range => do
    let n ← a.eval env
    return range.min.all (·.toInt ≤ n.toInt) && range.max.all (n.toInt ≤ ·.toInt)
  | .both a b => do
    let s ← a.eval env
    let t ← b.eval env
    return s && t
  | .either a b => do
    let s ← a.eval env
    let t ← b.eval env
    return s || t
  | .opposite a => do return !(← a.eval env)

/-- The value of an operand. -/
def Operand.eval (env : Env) : Operand → Option Amount
  | .number a => a.eval env
  | .truth c => do return if ← c.eval env then 1 else 0

/-- What a program reads and changes. -/
structure State where
  /-- The values of variables, the innermost scope first. -/
  scopes : List (Table String Amount) := [[]]
  /-- The lines that were said. -/
  said : Array String := #[]

namespace State

/-- The value of a variable in the innermost scope that has one. -/
def lookup? (σ : State) (x : String) : Option Amount := σ.scopes.findSome? (·.get? x)

/-- The state with a variable in the innermost scope. -/
def declare (σ : State) (x : String) (n : Amount) : State :=
  match σ.scopes with
  | [] => σ
  | scope :: outer => { σ with scopes := scope.put x n :: outer }

/-- The scopes with another value for a variable, in the innermost scope that has it. -/
def assignIn (x : String) (n : Amount) :
    List (Table String Amount) → Option (List (Table String Amount))
  | [] => none
  | scope :: outer =>
    if scope.has x then some (scope.put x n :: outer) else (assignIn x n outer).map (scope :: ·)

/-- The state with another value for a variable that it has. -/
def assign (σ : State) (x : String) (n : Amount) : Option State :=
  (assignIn x n σ.scopes).map fun scopes => { σ with scopes }

/-- The state inside a new scope. -/
def enter (σ : State) : State := { σ with scopes := [] :: σ.scopes }

/-- The state behind the innermost scope. -/
def leave (σ : State) : State := { σ with scopes := σ.scopes.drop 1 }

/-- The state in which one more line was said. -/
def say (σ : State) (text : String) : State := { σ with said := σ.said.push ("say " ++ text) }

end State

mutual

/-- The state behind a statement, if the fuel suffices for it. -/
def exec : (fuel : Nat) → Statement → State → Option State
  | 0, _, _ => none
  | _ + 1, .declare x e, σ => (e.eval σ.lookup?).map (σ.declare x)
  | _ + 1, .assign x e, σ => (e.eval σ.lookup?).bind (σ.assign x)
  | _ + 1, .update x op e, σ =>
    (Number.eval σ.lookup? (.arith op (.variable x) e)).bind (σ.assign x)
  | n + 1, .block body, σ => (execAll n body σ.enter).map State.leave
  | n + 1, .ifElse c thenBranch none, σ =>
    match c.eval σ.lookup? with
    | some true => (exec n thenBranch σ.enter).map State.leave
    | some false => some σ
    | none => none
  | n + 1, .ifElse c thenBranch (some elseBranch), σ =>
    match c.eval σ.lookup? with
    | some true => (exec n thenBranch σ.enter).map State.leave
    | some false => (exec n elseBranch σ.enter).map State.leave
    | none => none
  | n + 1, .while c body, σ =>
    match c.eval σ.lookup? with
    | some true => ((exec n body σ.enter).map State.leave).bind (exec n (.while c body))
    | some false => some σ
    | none => none
  | _ + 1, .say text, σ => some (σ.say text)

/-- The state behind several statements. -/
def execAll : (fuel : Nat) → List Statement → State → Option State
  | 0, _, _ => none
  | _ + 1, [], σ => some σ
  | n + 1, s :: ss, σ => (exec n s σ).bind (execAll n ss)

end

/-! ## Enough fuel -/

-- Nearly every proof below takes these apart, so their equations are made once and here.
attribute [local simp] exec execAll

theorem exec_succ (n : Nat) : (∀ s σ τ, exec n s σ = some τ → exec (n + 1) s σ = some τ) ∧
    ∀ ss σ τ, execAll n ss σ = some τ → execAll (n + 1) ss σ = some τ := by
  induction n with
  | zero =>
    constructor
    · intro s σ τ h
      cases h
    · intro ss σ τ h
      cases h
  | succ n ih =>
    obtain ⟨ihs, ihss⟩ := ih
    have hscoped : ∀ s σ τ, (exec n s σ).map State.leave = some τ →
        (exec (n + 1) s σ).map State.leave = some τ := by
      intro s σ τ h
      obtain ⟨τ₁, h₁, rfl⟩ := Option.map_eq_some_iff.mp h
      rw [ihs s σ τ₁ h₁, Option.map_some]
    constructor
    · intro s σ τ h
      cases s with
      | declare x e => exact h
      | assign x e => exact h
      | update x op e => exact h
      | say text => exact h
      | block body =>
        rw [exec] at h ⊢
        obtain ⟨τ₁, h₁, rfl⟩ := Option.map_eq_some_iff.mp h
        rw [ihss body _ τ₁ h₁, Option.map_some]
      | ifElse c t e =>
        cases e with
        | none =>
          rw [exec] at h ⊢
          revert h
          cases c.eval σ.lookup? with
          | none => exact id
          | some b =>
            cases b with
            | false => exact id
            | true => exact hscoped t _ τ
        | some e =>
          rw [exec] at h ⊢
          revert h
          cases c.eval σ.lookup? with
          | none => exact id
          | some b =>
            cases b with
            | false => exact hscoped e _ τ
            | true => exact hscoped t _ τ
      | «while» c body =>
        rw [exec] at h ⊢
        revert h
        cases c.eval σ.lookup? with
        | none => exact id
        | some b =>
          cases b with
          | false => exact id
          | true =>
            intro h
            obtain ⟨σ₁, h₁, h₂⟩ := Option.bind_eq_some_iff.mp h
            exact Option.bind_eq_some_iff.mpr ⟨σ₁, hscoped body _ σ₁ h₁, ihs _ σ₁ τ h₂⟩
    · intro ss σ τ h
      cases ss with
      | nil => exact h
      | cons s ss =>
        rw [execAll] at h ⊢
        obtain ⟨σ₁, h₁, h₂⟩ := Option.bind_eq_some_iff.mp h
        exact Option.bind_eq_some_iff.mpr ⟨σ₁, ihs s σ σ₁ h₁, ihss ss σ₁ τ h₂⟩

theorem exec_mono {s : Statement} {σ τ : State} {n : Nat} (h : exec n s σ = some τ) {m : Nat}
    (hm : n ≤ m) : exec m s σ = some τ := by
  induction hm with
  | refl => exact h
  | step _ ih => exact (exec_succ _).1 s σ τ ih

theorem execAll_mono {ss : List Statement} {σ τ : State} {n : Nat} (h : execAll n ss σ = some τ)
    {m : Nat} (hm : n ≤ m) : execAll m ss σ = some τ := by
  induction hm with
  | refl => exact h
  | step _ ih => exact (exec_succ _).2 ss σ τ ih

/-- With enough fuel, the statement leads from one state to another. -/
def Runs (s : Statement) (σ τ : State) : Prop := ∃ n, exec n s σ = some τ

/-- With enough fuel, the statements lead from one state to another. -/
def RunsAll (ss : List Statement) (σ τ : State) : Prop := ∃ n, execAll n ss σ = some τ

variable {σ σ₁ τ : State} {c : Truth} {s s' : Statement}

theorem runs_declare {x : String} {e : Operand} {n : Amount} (h : e.eval σ.lookup? = some n) :
    Runs (.declare x e) σ (σ.declare x n) := ⟨1, by simp [h]⟩

theorem runs_assign {x : String} {e : Operand} {n : Amount} (h : e.eval σ.lookup? = some n)
    (hτ : σ.assign x n = some τ) : Runs (.assign x e) σ τ := ⟨1, by simp [h, hτ]⟩

theorem runs_update {x : String} {op : Arith} {e : Number} {n : Amount}
    (h : Number.eval σ.lookup? (.arith op (.variable x) e) = some n) (hτ : σ.assign x n = some τ) :
    Runs (.update x op e) σ τ := ⟨1, by rw [exec, h, Option.bind_some, hτ]⟩

theorem runs_say (text : String) (σ : State) : Runs (.say text) σ (σ.say text) := ⟨1, rfl⟩

theorem runs_block {body : List Statement} (h : RunsAll body σ.enter τ) :
    Runs (.block body) σ τ.leave := by
  obtain ⟨n, hn⟩ := h
  exact ⟨n + 1, by rw [exec, hn, Option.map_some]⟩

theorem runs_then {e : Option Statement} (hc : c.eval σ.lookup? = some true)
    (h : Runs s σ.enter τ) : Runs (.ifElse c s e) σ τ.leave := by
  obtain ⟨n, hn⟩ := h
  refine ⟨n + 1, ?_⟩
  cases e <;> rw [exec, hc] <;> simp only [hn, Option.map_some]

theorem runs_else (hc : c.eval σ.lookup? = some false) (h : Runs s' σ.enter τ) :
    Runs (.ifElse c s (some s')) σ τ.leave := by
  obtain ⟨n, hn⟩ := h
  exact ⟨n + 1, by rw [exec, hc]; simp only [hn, Option.map_some]⟩

theorem runs_skip (hc : c.eval σ.lookup? = some false) : Runs (.ifElse c s none) σ σ :=
  ⟨1, by rw [exec, hc]⟩

theorem runs_while_false (hc : c.eval σ.lookup? = some false) : Runs (.while c s) σ σ :=
  ⟨1, by rw [exec, hc]⟩

theorem runs_while_true (hc : c.eval σ.lookup? = some true) (h : Runs s σ.enter σ₁)
    (h' : Runs (.while c s) σ₁.leave τ) : Runs (.while c s) σ τ := by
  obtain ⟨n, hn⟩ := h
  obtain ⟨m, hm⟩ := h'
  refine ⟨max n m + 1, ?_⟩
  rw [exec, hc]
  simp only [exec_mono hn (Nat.le_max_left n m), Option.map_some, Option.bind_some,
    exec_mono hm (Nat.le_max_right n m)]

theorem runsAll_nil (σ : State) : RunsAll [] σ σ := ⟨1, rfl⟩

theorem runsAll_cons {ss : List Statement} (h : Runs s σ σ₁) (h' : RunsAll ss σ₁ τ) :
    RunsAll (s :: ss) σ τ := by
  obtain ⟨n, hn⟩ := h
  obtain ⟨m, hm⟩ := h'
  refine ⟨max n m + 1, ?_⟩
  rw [execAll, exec_mono hn (Nat.le_max_left n m), Option.bind_some,
    execAll_mono hm (Nat.le_max_right n m)]

/-! ## Division of constants -/

/-- The value of a number without variables. -/
def Number.constant? (a : Number) : Option Amount := a.eval fun _ => none

/-- No quotient or remainder of two constants in the number has a zero divisor. -/
def Number.safe : Number → Bool
  | .literal _ | .variable _ => true
  | .arith op a b =>
    a.safe && b.safe &&
      !((op = .div || op = .mod) && a.constant?.isSome && b.constant? = some 0)
  | .negate a => a.safe

/-- The numbers of a condition are safe. -/
def Truth.safe : Truth → Bool
  | .constant _ | .variable _ => true
  | .relate _ a b => a.safe && b.safe
  | .within a _ => a.safe
  | .both a b | .either a b => a.safe && b.safe
  | .opposite a => a.safe

/-- The numbers of an operand are safe. -/
def Operand.safe : Operand → Bool
  | .number a => a.safe
  | .truth c => c.safe

mutual

/-- The numbers of a statement are safe. -/
def Statement.safe : Statement → Bool
  | .declare _ e | .assign _ e => e.safe
  | .update _ _ e => e.safe
  | .block body => safeAll body
  | .ifElse c thenBranch none => c.safe && thenBranch.safe
  | .ifElse c thenBranch (some elseBranch) => c.safe && thenBranch.safe && elseBranch.safe
  | .while c body => c.safe && body.safe
  | .say _ => true

/-- The numbers of several statements are safe. -/
def safeAll : List Statement → Bool
  | [] => true
  | s :: ss => s.safe && safeAll ss

end

end Core

/-! ## Trees of the core -/

namespace Expr

open Packwright.Core

/-- The number that an expression is. -/
def number? : Expr → Option Number
  | literal _ (.integer .int n) => some (.literal n)
  | name _ x => some (.variable x)
  | binary _ (.arith op) l r _ => do return .arith op (← l.number?) (← r.number?)
  | unary _ .neg e _ => e.number?.map .negate
  | cast _ e _ => e.number?
  | _ => none

/-- The range that an expression is, with literals for its bounds. -/
def range? : Expr → Option Range
  | range _ l h => do return ⟨← constantBound? l, ← constantBound? h⟩
  | _ => none

/-- The condition that an expression is. -/
def truth? : Expr → Option Truth
  | literal _ (.bool b) => some (.constant b)
  | name _ x => some (.variable x)
  | binary _ (.relate r) a b _ => do return .relate r (← a.number?) (← b.number?)
  | binary _ .within a b _ => do return .within (← a.number?) (← b.range?)
  | binary _ .and a b _ => do return .both (← a.truth?) (← b.truth?)
  | binary _ .or a b _ => do return .either (← a.truth?) (← b.truth?)
  | unary _ .not e _ => e.truth?.map .opposite
  | cast _ e _ => e.truth?
  | _ => none

/-- The number that an expression is, or else the condition. -/
def operand? (e : Expr) : Option Operand :=
  (e.number?.map .number).or (e.truth?.map .truth)

end Expr

open Packwright.Core Words

mutual

/-- The core statement that a statement is.  What is said is one plain word. -/
def Stmt.core? : Stmt → Option Statement
  | .var _ declared (some e) _ => e.operand?.map (.declare declared.name)
  | .assign _ (.name _ x) .assign e _ => e.operand?.map (.assign x)
  | .assign _ (.name _ x) (.update op) e _ => e.number?.map (.update x op)
  | .block _ body => (coreAll? body).map .block
  | .ifElse _ e thenBranch none => do
    return .ifElse (← e.truth?) (← thenBranch.core?) none
  | .ifElse _ e thenBranch (some elseBranch) => do
    return .ifElse (← e.truth?) (← thenBranch.core?) (some (← elseBranch.core?))
  | .while _ e body => do return .while (← e.truth?) (← body.core?)
  | .command _ (.say (.literal _ (.string text))) => if IsPlain text then some (.say text) else none
  | _ => none

/-- The core statements that several statements are. -/
def coreAll? : List Stmt → Option (List Statement)
  | [] => some []
  | s :: ss => do return (← s.core?) :: (← coreAll? ss)

end

end Packwright
