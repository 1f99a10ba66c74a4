import Packwright.Binary.Format

/-!
# Shortest decimals

The decimal with the fewest digits that rounds to a given datum, and of those the nearest one; of
two equally near ones the greater.  A decimal rounds to the datum if it lies between the midpoints
to the neighbouring data, the midpoints counting exactly if the significand is even.
-/

namespace Packwright.Decimal

open Packwright.Binary

/-- The number `digits * 10 ^ exponent`. -/
structure Scientific where
  digits : Nat
  exponent : Int
  deriving DecidableEq, Repr

/-- The number of decimal digits of a natural. -/
def digitCount (n : Nat) : Nat := (Nat.toDigits 10 n).length

/-- The number without zeros at the end of its digits; at most `fuel` of them are taken off. -/
def Scientific.strip : (fuel : Nat) → Scientific → Scientific
  | 0, d => d
  | fuel + 1, d =>
    if d.digits ≠ 0 && d.digits % 10 = 0 then strip fuel ⟨d.digits / 10, d.exponent + 1⟩ else d

/-- A quotient as a pair of naturals over a power of ten: `n / d * 10 ^ (- exponent)`. -/
def overTen (n d : Nat) (exponent : Int) : Nat × Nat :=
  if exponent ≥ 0 then (n, d * Nat.pow 10 exponent.toNat)
  else (n * Nat.pow 10 (-exponent).toNat, d)

/-- The numbers that round to a datum: those from `low / den` to `high / den`, the ends being
counted if `closed`. -/
structure Interval where
  low : Nat
  high : Nat
  den : Nat
  closed : Bool

/-- Whether `n * 10 ^ exponent` rounds to the datum. -/
def Interval.has (i : Interval) (n : Nat) (exponent : Int) : Bool :=
  let (num, den) :=
    if exponent ≥ 0 then (n * Nat.pow 10 exponent.toNat, 1) else (n, Nat.pow 10 (-exponent).toNat)
  let value := num * i.den
  let low := i.low * den
  let high := i.high * den
  if i.closed then low ≤ value && value ≤ high else low < value && value < high

/-- The interval of `significand * 2 ^ exponent`, its ends written over the same denominator as four
times the number.  The midpoint below is half as far at the least significand of a binade. -/
def interval (f : Format) (significand : Nat) (exponent : Int) : Interval :=
  let narrow := significand = Nat.pow 2 (f.precision - 1) && exponent ≠ f.leastExponent
  let low := if narrow then 4 * significand - 1 else 4 * significand - 2
  let high := 4 * significand + 2
  let up := Nat.pow 2 exponent.toNat
  ⟨low * up, high * up, 4 * Nat.pow 2 (-exponent).toNat, significand % 2 = 0⟩

/-- The power of ten above a quotient `num / den` of naturals that is not zero. -/
def magnitude (num den : Nat) : Int :=
  if den ≤ num then digitCount (num / den) else 1 - digitCount (den / num)

/-- The shortest decimal on the grids of `count`, `count + 1`, … digits, at most `fuel` grids. -/
def search (i : Interval) (num den : Nat) (top : Int) : (fuel count : Nat) → Scientific
  | 0, count =>
    let (n, d) := overTen num den (top - count)
    ⟨n / d, top - count⟩
  | fuel + 1, count =>
    let unit := top - count
    let (n, d) := overTen num den unit
    let below := n / d
    let atBelow := i.has below unit
    let atAbove := i.has (below + 1) unit
    if atBelow && !(atAbove && d ≤ 2 * (n % d)) then ⟨below, unit⟩
    else if atAbove then ⟨below + 1, unit⟩
    else search i num den top fuel (count + 1)

/-- The shortest decimal of the positive number `significand * 2 ^ exponent` of the format.
Seventeen digits tell the data of either format apart. -/
def shortest (f : Format) (significand : Nat) (exponent : Int) : Scientific :=
  if significand = 0 then ⟨0, 0⟩
  else
    let num := significand * Nat.pow 2 exponent.toNat
    let den := Nat.pow 2 (-exponent).toNat
    let found := search (interval f significand exponent) num den (magnitude num den) 17 1
    found.strip 20

end Packwright.Decimal
