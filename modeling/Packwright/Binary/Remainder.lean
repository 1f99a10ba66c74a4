import Packwright.Binary.Format

/-!
# Remainders of floating-point numbers

The remainder of two finite data is again a datum of the format, so it is computed exactly.
-/

namespace Packwright.Binary

/-- The bits of the remainder of two data: the dividend less the whole multiple of the divisor that
leaves the least magnitude with the sign of the dividend. -/
def Format.remainder (f : Format) (dividend divisor : Nat) : Nat :=
  match f.decode dividend, f.decode divisor with
  | .finite _ _ _, .infinite _ => dividend
  | .finite negative m p, .finite _ n q =>
    if n = 0 then f.notANumber
    else
      let base := min p q
      let rest := (m * Nat.pow 2 (p - base).toNat) % (n * Nat.pow 2 (q - base).toNat)
      let (num, den) := Format.scaleDown rest 1 (-base)
      f.withSign negative (f.round num den)
  | _, _ => f.notANumber

/-- The remainder of 32-bit numbers, with the sign of the dividend. -/
def remainderSingle (a b : Float32) : Float32 :=
  .ofBits (Format.single.remainder a.toBits.toNat b.toBits.toNat).toUInt32

/-- The remainder of 64-bit numbers, with the sign of the dividend. -/
def remainderDouble (a b : Float) : Float :=
  .ofBits (Format.double.remainder a.toBits.toNat b.toBits.toNat).toUInt64

end Packwright.Binary
