/-!
# Binary floating point, exactly

A format has a precision and a least exponent.  `Format.decode` takes the bits of a datum apart into
a significand and a power of two, `Format.round` rounds a quotient of naturals to the nearest datum,
with ties to the even significand.  Both work on naturals and are exact.
-/

namespace Packwright.Binary

/-- A binary interchange format. -/
structure Format where
  /-- Digits of the significand, the leading one counted. -/
  precision : Nat
  /-- Digits of the biased exponent. -/
  exponentBits : Nat

namespace Format

/-- The 32-bit format. -/
def single : Format := ⟨24, 8⟩

/-- The 64-bit format. -/
def double : Format := ⟨53, 11⟩

/-- The exponent of the last digit of the least numbers. -/
def leastExponent (f : Format) : Int := 3 - Int.pow 2 (f.exponentBits - 1) - f.precision

/-- The bits of positive infinity. -/
def infinity (f : Format) : Nat := (Nat.pow 2 f.exponentBits - 1) * Nat.pow 2 (f.precision - 1)

/-- The bit of the sign. -/
def signBit (f : Format) : Nat := Nat.pow 2 (f.exponentBits + f.precision - 1)

/-- The bits of a quiet datum that is not a number. -/
def notANumber (f : Format) : Nat := f.infinity + Nat.pow 2 (f.precision - 2)

end Format

/-- A datum taken apart.  A finite one is `significand * 2 ^ exponent`. -/
inductive Datum where
  | notANumber
  | infinite (negative : Bool)
  | finite (negative : Bool) (significand : Nat) (exponent : Int)
  deriving DecidableEq, Repr

namespace Format

/-- The datum with the given bits. -/
def decode (f : Format) (bits : Nat) : Datum :=
  let negative := f.signBit ≤ bits
  let magnitude := bits % f.signBit
  let fraction := magnitude % Nat.pow 2 (f.precision - 1)
  let biased := magnitude / Nat.pow 2 (f.precision - 1)
  if magnitude > f.infinity then .notANumber
  else if magnitude = f.infinity then .infinite negative
  else if biased = 0 then .finite negative fraction f.leastExponent
  else
    .finite negative (fraction + Nat.pow 2 (f.precision - 1)) (f.leastExponent + (biased - 1 : Nat))

/-- The bits with the sign put on them. -/
def withSign (f : Format) (negative : Bool) (bits : Nat) : Nat :=
  if negative then f.signBit + bits else bits

/-- The quotient of two naturals to the nearest natural, a half going to the even one. -/
def divideToEven (num den : Nat) : Nat :=
  let q := num / den
  let twice := 2 * (num % den)
  if twice < den then q
  else if den < twice then q + 1
  else if q % 2 = 0 then q else q + 1

/-- The quotient `num / den` times `2 ^ (- exponent)`, as a pair of naturals. -/
def scaleDown (num den : Nat) (exponent : Int) : Nat × Nat :=
  if exponent ≥ 0 then (num, den * Nat.pow 2 exponent.toNat)
  else (num * Nat.pow 2 (-exponent).toNat, den)

/-- The bits of the datum nearest to the positive quotient `num / den`.  The exponent is the one at
which the quotient has `precision` digits before the point, or the least one.  A significand that is
rounded up to `2 ^ precision` carries into the exponent by itself. -/
def round (f : Format) (num den : Nat) : Nat :=
  if num = 0 then 0
  else
    let first : Int := (num.log2 : Int) - den.log2 - f.precision
    let (n, d) := scaleDown num den first
    let fitted := if n / d ≥ Nat.pow 2 f.precision then first + 1 else first
    let exponent := max fitted f.leastExponent
    let (n, d) := scaleDown num den exponent
    let bits := (exponent - f.leastExponent).toNat * Nat.pow 2 (f.precision - 1) + divideToEven n d
    min bits f.infinity

end Format

end Packwright.Binary
