import Packwright.Binary.Remainder
import Packwright.Operator.Symbol
import Packwright.Value.Basic

/-!
# Folding constants

Integers of all widths are folded in 128 binary digits and brought back to their width; division
rounds down and has no result for a zero divisor.  Floating-point arithmetic is that of the format.
-/

namespace Packwright

/-- Why two integers are not folded. -/
inductive FoldError where
  | zeroDivisor
  /-- A number on the way has more than 128 binary digits. -/
  | overflow
  deriving DecidableEq, Repr

namespace Arith

/-- A number on the way, which has to fit into 128 binary digits. -/
def checked (n : Int) : Except FoldError Int :=
  if -(Int.pow 2 127) ≤ n ∧ n < Int.pow 2 127 then .ok n else .error .overflow

/-- The quotient rounded down.  The one that is rounded towards zero is too great by one if there is
a remainder and the signs differ. -/
def floorDiv (a b : Int) : Except FoldError Int :=
  if b = 0 then .error .zeroDivisor
  else do
    let quotient ← checked (a.tdiv b)
    let remainder ← checked (a.tmod b)
    if remainder ≠ 0 ∧ decide (a < 0) ≠ decide (b < 0) then checked (quotient - 1)
    else return quotient

/-- The remainder that goes with the quotient rounded down. -/
def floorMod (a b : Int) : Except FoldError Int := do
  let quotient ← floorDiv a b
  let product ← checked (b * quotient)
  checked (a - product)

/-- The operator on integers. -/
def onInt (op : Arith) (a b : Int) : Except FoldError Int :=
  match op with
  | add => checked (a + b)
  | sub => checked (a - b)
  | mul => checked (a * b)
  | div => floorDiv a b
  | mod => floorMod a b

/-- The operator on words of a width. -/
def onWord {w : Width} (op : Arith) (a b : Word w) : Option (Word w) :=
  (op.onInt a.toInt b.toInt).toOption.map (BitVec.ofInt w.bits)

/-- The operator on 32-bit numbers. -/
def onSingle (op : Arith) (a b : Float32) : Float32 :=
  match op with
  | add => a + b
  | sub => a - b
  | mul => a * b
  | div => a / b
  | mod => Binary.remainderSingle a b

/-- The operator on 64-bit numbers. -/
def onDouble (op : Arith) (a b : Float) : Float :=
  match op with
  | add => a + b
  | sub => a - b
  | mul => a * b
  | div => a / b
  | mod => Binary.remainderDouble a b

end Arith

namespace Value

/-- The operator on two numbers of one kind. -/
def arith (op : Arith) : Value → Value → Option Value
  | integer .int a, integer .int b => (op.onWord a b).map (integer .int)
  | integer .byte a, integer .byte b => (op.onWord a b).map (integer .byte)
  | integer .short a, integer .short b => (op.onWord a b).map (integer .short)
  | integer .long a, integer .long b => (op.onWord a b).map (integer .long)
  | float a, float b => some (float (op.onSingle a b))
  | double a, double b => some (double (op.onDouble a b))
  | _, _ => none

/-- The order of two numbers of one kind; what is not a number has no order. -/
def order? : Value → Value → Option Ordering
  | integer v a, integer w b => if v = w then some (compare a.toInt b.toInt) else none
  | float a, float b =>
    if a < b then some .lt else if a == b then some .eq else if b < a then some .gt else none
  | double a, double b =>
    if a < b then some .lt else if a == b then some .eq else if b < a then some .gt else none
  | _, _ => none

/-- Whether two values are in a relation.  Equality is defined for all values, order for numbers of
one kind. -/
def relate (r : Relation) (a b : Value) : Option Bool :=
  match r with
  | .eq => some (a.same b)
  | .ne => some (!a.same b)
  | .lt => (order? a b).map (·.isLT)
  | .le => (order? a b).map (·.isLE)
  | .gt => (order? a b).map (·.isGT)
  | .ge => (order? a b).map (·.isGE)

/-- The opposite of a number. -/
def negate? : Value → Option Value
  | integer w v => some (integer w (-v))
  | float v => some (float (-v))
  | double v => some (double (-v))
  | _ => none

end Value

end Packwright
