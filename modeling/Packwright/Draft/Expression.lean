import Packwright.Draft.Operation
import Packwright.Tree.Expr

/-!
# Generating from expressions

An expression is evaluated as far as it is constant; for the rest lines are written.  There is no
value for a call, for an expression that could not be resolved, and for an operation without a
result.
-/

namespace Packwright.Expr

open Gen

/-- Two bounds become a range only if they are plain integers. -/
def amount? : Value → Option Amount
  | .integer .int n => some n
  | _ => none

mutual

/-- The value of an expression. -/
def generate : Expr → OptionT Gen Value
  | literal _ v => return v
  | name _ n => do OptionT.mk (return (← get).lookup? n)
  | binary _ _ l r operation =>
    match operation with
    | none => failure
    | some o => do
      let left ← generate l
      let right ← generate r
      o.rule.apply left right
  | unary _ _ e operation =>
    match operation with
    | none => failure
    | some o => do o.rule.apply (← generate e)
  | cast _ e c => do c.apply (← generate e)
  | range _ l h => do
    let min ← generateBound l
    let max ← generateBound h
    return .range ⟨min, max⟩
  | list _ es => return .list (← generateAll es)
  | compound _ es => return .compound (Table.ofPairs (← generateEntries es))
  | member _ e n m as => do
    let object ← generate e
    let _ ← generateAll as
    m.rule.apply object n
  | dataPath _ e path => do
    match ← generate e with
    | .selector target => return .data ⟨target, path⟩
    | _ => failure
  | variant _ enum n => return .variant enum n
  | call _ target => do
    emit (Line.call (target.resolve (← get).options.space))
    failure
  | error _ => failure

/-- The values of several expressions; it ends at the first that has none. -/
def generateAll : List Expr → OptionT Gen (List Value)
  | [] => return []
  | e :: es => do
    let v ← generate e
    let vs ← generateAll es
    return v :: vs

/-- The values of the entries of a compound; it ends at the first that has none. -/
def generateEntries : List (String × Expr) → OptionT Gen (List (String × Value))
  | [] => return []
  | (key, e) :: es => do
    let v ← generate e
    let vs ← generateEntries es
    return (key, v) :: vs

/-- The value of a bound of a range. -/
def generateBound : Option Expr → OptionT Gen (Option Amount)
  | none => return none
  | some e => do
    match amount? (← generate e) with
    | some n => return some n
    | none => failure

end

/-- The condition that an expression stands for. -/
def generateCondition (e : Expr) : OptionT Gen Condition := do
  match ← generate e with
  | .condition c => return c
  | .bool b => return .constant b
  | v =>
    match Kind.cast? v.kind .condition with
    | none => failure
    | some c =>
      match ← c.apply v with
      | .condition c => return c
      | _ => failure

/-- The selector that an expression stands for. -/
def generateSelector (e : Expr) : OptionT Gen Selector := do
  match ← generate e with
  | .selector s => return s
  | _ => failure

/-- The value of an expression that has to be constant; `what` names it in the complaint. -/
def generateConstant (e : Expr) (what : String) : OptionT Gen Value := do
  let v ← generate e
  if v.isRuntime then
    complain (.notConstant what) e.span
    failure
  else return v

end Packwright.Expr
