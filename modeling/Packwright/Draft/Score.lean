import Packwright.Draft.Guard
import Packwright.Operator.Symbol

/-!
# Scores at run time

The lines that store a value in a score, change a score in its place, and compute with scores.  What
has no such lines has no result.
-/

namespace Packwright

/-- The sign of an arithmetic operator between two scores. -/
def Arith.sign (op : Arith) : String := op.symbol ++ "="

/-- What is added to a score by adding or subtracting a number.  The least number has no opposite,
so it is left to the operation between scores. -/
def Arith.change? (op : Arith) (n : Amount) : Option Amount :=
  if n = BitVec.ofInt _ Width.int.least then none
  else
    match op with
    | add => some n
    | sub => some (-n)
    | _ => none

namespace Score

open Gen

/-- Changes a score by an operator and a value. -/
def modify (target : Score) (op : Arith) : Value → OptionT Gen Unit
  | .integer .int n =>
    match op.change? n with
    | some change =>
      emit (if 0 ≤ change.toInt then Line.add target change else Line.remove target (-change))
    | none => do
      let constant ← temp "const"
      emit (Line.set constant n)
      emit (Line.operation target op.sign constant)
  | .score source => emit (Line.operation target op.sign source)
  | _ => failure

/-- The result of an operator on a score and a value, in a score of its own. -/
def compute (op : Arith) (source : Score) (value : Value) : OptionT Gen Value := do
  let result ← temp "expr"
  emit (Line.operation result "=" source)
  modify result op value
  return .score result

/-- The opposite of a score, in a score of its own. -/
def opposite (source : Score) : Gen Value := do
  let result ← temp "expr"
  emit (Line.set result 0)
  emit (Line.operation result "-=" source)
  return .score result

/-- The truth of a condition as 1 or 0, in a score of its own. -/
def ofCondition (c : Condition) : Gen Score := do
  let flag ← temp "cond"
  emit (Line.set flag 0)
  emitAll (← c.lower (Line.set flag 1))
  return flag

/-- Stores a value in a score.  A condition goes through a score of its own, since it may read the
target. -/
def store (target : Score) : Value → OptionT Gen Unit
  | .integer .int n => emit (Line.set target n)
  | .bool b => emit (Line.set target (if b then 1 else 0))
  | .score source => if source = target then return else emit (Line.operation target "=" source)
  | .condition c => do
    let flag ← ofCondition c
    emit (Line.operation target "=" flag)
  | .data path => emit (Line.fetch target path)
  | _ => failure

/-- A value in a score of its own. -/
def ofValue : Value → OptionT Gen Value
  | .condition c => return .score (← ofCondition c)
  | v@(.integer .int _) | v@(.bool _) | v@(.data _) => do
    let constant ← temp "const"
    store constant v
    return .score constant
  | _ => failure

/-- The condition that a score is in a relation to a number.  No score is beyond the greatest or the
least number. -/
def relateAmount (score : Score) (r : Relation) (n : Amount) : Condition :=
  let within (negated : Bool) (range : Range) : Condition := .leaf negated (.within score range)
  match r with
  | .gt =>
    if n.toInt = Width.int.greatest then .constant false else within false ⟨some (n + 1), none⟩
  | .ge => within false ⟨some n, none⟩
  | .lt => if n.toInt = Width.int.least then .constant false else within false ⟨none, some (n - 1)⟩
  | .le => within false ⟨none, some n⟩
  | .eq => within false (.exactly n)
  | .ne => within true (.exactly n)

/-- The condition that a score is in a relation to another. -/
def relateScore (left : Score) (r : Relation) (right : Score) : Condition :=
  let compare (negated : Bool) (c : Comparison) : Condition := .leaf negated (.compare left c right)
  match r with
  | .lt => compare false .lt
  | .le => compare false .le
  | .gt => compare false .gt
  | .ge => compare false .ge
  | .eq => compare false .eq
  | .ne => compare true .eq

/-- The condition that a value, which is a score, is in a relation to another value. -/
def relate? (r : Relation) : Value → Value → Option Condition
  | .score s, .integer .int n => some (s.relateAmount r n)
  | .score s, .score t => some (s.relateScore r t)
  | _, _ => none

end Score

end Packwright
