import Packwright.Binary.Format
import Packwright.Word

/-!
# Reading decimals

A decimal text is rounded once, to the nearest datum of the format.
-/

namespace Packwright.Decimal

open Packwright.Binary

/-- The natural with the given decimal digits. -/
def natural (digits : List Char) : Nat :=
  digits.foldl (fun n d => n * 10 + (d.toNat - '0'.toNat)) 0

/-- The bits nearest to `digits * 10 ^ exponent`.  All data lie between `10 ^ -400` and
`10 ^ 400`, so that greater and lesser powers need not be computed. -/
def roundDecimal (f : Format) (digits : Nat) (exponent : Int) : Nat :=
  if digits = 0 || exponent + (digits.log2 + 1 : Nat) < -400 then 0
  else if exponent > 400 then f.infinity
  else if exponent ≥ 0 then f.round (digits * Nat.pow 10 exponent.toNat) 1
  else f.round digits (Nat.pow 10 (-exponent).toNat)

/-- The number with the digits `whole` before the point and `fraction` after it. -/
def readSingle (whole fraction : List Char) : Float32 :=
  .ofBits (roundDecimal .single (natural (whole ++ fraction)) (-fraction.length)).toUInt32

/-- The number with the digits `whole` before the point and `fraction` after it. -/
def readDouble (whole fraction : List Char) : Float :=
  .ofBits (roundDecimal .double (natural (whole ++ fraction)) (-fraction.length)).toUInt64

/-- The bits of a text: a sign, digits with at most one point among them, and a power of ten behind
`e`; or one of the names of infinity and of what is not a number. -/
def parseBits? (f : Format) (text : List Char) : Option Nat :=
  let (negative, body) :=
    match text with
    | '-' :: cs => (true, cs)
    | '+' :: cs => (false, cs)
    | cs => (false, cs)
  (magnitude? (body.map Char.toLower)).map (f.withSign negative)
where
  /-- The bits of a text without a sign. -/
  magnitude? (body : List Char) : Option Nat :=
    if body = "inf".toList || body = "infinity".toList then some f.infinity
    else if body = "nan".toList then some f.notANumber
    else
      let (number, power) := body.span (· ≠ 'e')
      let whole := number.takeWhile (· ≠ '.')
      let fraction := (number.dropWhile (· ≠ '.')).drop 1
      let digits := whole ++ fraction
      if digits.isEmpty || !digits.all Char.isDigit then none
      else
        match power with
        | [] => some (roundDecimal f (natural digits) (-fraction.length))
        | _ :: exponent =>
          (Word.parseInt? exponent).map fun e =>
            roundDecimal f (natural digits) (e - fraction.length)

/-- The 32-bit number nearest to a text. -/
def parseSingle? (text : String) : Option Float32 :=
  (parseBits? .single text.toList).map fun bits => .ofBits bits.toUInt32

/-- The 64-bit number nearest to a text. -/
def parseDouble? (text : String) : Option Float :=
  (parseBits? .double text.toList).map fun bits => .ofBits bits.toUInt64

end Packwright.Decimal
