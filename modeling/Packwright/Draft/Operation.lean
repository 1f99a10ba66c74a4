import Packwright.Binary.Format
import Packwright.Draft.Score
import Packwright.Operator.Fold
import Packwright.Operator.Table

/-!
# Carrying out operations

What the entries of the operator tables do with values: constants are folded, and for the rest lines
are written.  An entry that gets values of other kinds than its own has no result.
-/

namespace Packwright

open Gen

namespace Value

/-- The condition that a value stands for. -/
def condition? : Value → Option Condition
  | condition c => some c
  | bool b => some (.constant b)
  | _ => none

/-- The value as a plain integer. -/
def toInt? : Value → Option Value
  | integer .byte n => some (int (BitVec.ofInt _ n.toInt))
  | integer .short n => some (int (BitVec.ofInt _ n.toInt))
  | bool b => some (int (if b then 1 else 0))
  | _ => none

/-- The value as a long integer. -/
def toLong? : Value → Option Value
  | integer .int n => some (integer .long (BitVec.ofInt _ n.toInt))
  | integer .byte n => some (integer .long (BitVec.ofInt _ n.toInt))
  | integer .short n => some (integer .long (BitVec.ofInt _ n.toInt))
  | _ => none

/-- The 32-bit number nearest to an integer. -/
def singleOfInt (n : Int) : Float32 :=
  .ofBits (Binary.Format.single.withSign (n < 0) (Binary.Format.single.round n.natAbs 1)).toUInt32

/-- The 64-bit number nearest to an integer. -/
def doubleOfInt (n : Int) : Float :=
  .ofBits (Binary.Format.double.withSign (n < 0) (Binary.Format.double.round n.natAbs 1)).toUInt64

/-- The value as a 32-bit number. -/
def toSingle? : Value → Option Value
  | integer .int n => some (float (singleOfInt n.toInt))
  | integer .byte n => some (float (singleOfInt n.toInt))
  | integer .short n => some (float (singleOfInt n.toInt))
  | _ => none

/-- The value as a 64-bit number. -/
def toDouble? : Value → Option Value
  | integer _ n => some (double (doubleOfInt n.toInt))
  | float x => some (double x.toFloat)
  | _ => none

/-- The value as a condition. -/
def toCondition? : Value → Option Value
  | bool b => some (condition (.constant b))
  | score s => some (condition (.leaf true (.within s (.exactly 0))))
  | selector s => some (condition (.leaf false (.entity s)))
  | data path => some (condition (.leaf false (.data path)))
  | _ => none

end Value

/-- What a rule does with two operands. -/
def BinaryRule.apply : BinaryRule → Value → Value → OptionT Gen Value
  | fold op, l, r => OptionT.mk (return l.arith op r)
  | decide relation, l, r => OptionT.mk (return (l.relate relation r).map .bool)
  | concat, l, r => return .string (l.plain ++ r.plain)
  | both, .bool a, .bool b => return .bool (a && b)
  | either, .bool a, .bool b => return .bool (a || b)
  | rangeHas, .integer .int n, .range r => return .bool (r.contains n)
  | conjoin, l, r =>
    match l.condition?, r.condition? with
    | some a, some b => return .condition (a.and b)
    | _, _ => failure
  | disjoin, l, r =>
    match l.condition?, r.condition? with
    | some a, some b => return .condition (a.or b)
    | _, _ => failure
  | compareScore relation, l, r => OptionT.mk (return (Score.relate? relation l r).map .condition)
  | compareWithScore relation, l, r =>
    OptionT.mk (return (Score.relate? relation.flipped r l).map .condition)
  | scoreWithin, .score s, .range r => return .condition (.leaf false (.within s r))
  | scoreArith op, .score s, r => s.compute op r
  | arithWithScore op, l, .score s => s.compute op l
  | store, .score target, r => do
    target.store r
    failure
  | modify op, .score target, r => do
    target.modify op r
    failure
  | _, _, _ => failure

/-- What a rule does with an operand. -/
def UnaryRule.apply : UnaryRule → Value → OptionT Gen Value
  | negate, v => OptionT.mk (return v.negate?)
  | invert, .bool b => return .bool (!b)
  | invert, .condition c => return .condition c.negate
  | negateScore, .score s => s.opposite
  | _, _ => failure

/-- The value under a cast. -/
def Cast.apply (c : Cast) (v : Value) : OptionT Gen Value :=
  match c.target, v with
  | .int, v => OptionT.mk (return v.toInt?)
  | .long, v => OptionT.mk (return v.toLong?)
  | .float, v => OptionT.mk (return v.toSingle?)
  | .double, v => OptionT.mk (return v.toDouble?)
  | .string, .resource id => return .string id.text
  | .range, .integer .int n => return .range (.exactly n)
  | .item, .resource id => return .item id none
  | .condition, v => OptionT.mk (return v.toCondition?)
  | .score, v => Score.ofValue v
  | _, _ => failure

/-- The value of a member with a given name. -/
def MemberRule.apply : MemberRule → Value → (name : String) → OptionT Gen Value
  | objective, .selector s, name => return .score ⟨s.text, name⟩
  | reset, .score s, _ => do
    emit (Line.reset s)
    failure
  | length, .string s, _ => OptionT.mk (return (Word.ofInt? .int s.length).map .int)
  | length, .list vs, _ => OptionT.mk (return (Word.ofInt? .int vs.length).map .int)
  | rangeBound, .range r, name =>
    OptionT.mk (return (if name = "min" then r.min else r.max).map .int)
  | resourcePart, .resource id, name =>
    return .string (if name = "namespace" then id.space else id.path)
  | _, _, _ => failure

end Packwright
