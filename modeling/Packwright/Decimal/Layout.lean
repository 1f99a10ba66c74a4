import Packwright.Decimal.Shortest

/-!
# Decimal text

A layout says which magnitudes are written positionally and whether a whole number keeps a point.
`Layout.plain` is the text of values in commands, `Layout.exact` the text of number tokens in
messages.
-/

namespace Packwright.Decimal

open Packwright.Binary

/-- How a number is laid out. -/
structure Layout where
  /-- The numbers written positionally: those from `10 ^ least` up to, and without, `10 ^ bound`;
  without bounds all of them. -/
  bounds : Option (Int × Int)
  /-- Whether a whole number is written with `.0`. -/
  keepsPoint : Bool

/-- Always positional, whole numbers without a point. -/
def Layout.plain : Layout := ⟨none, false⟩

/-- Positional from a ten-thousandth up to ten to the sixteenth, with a point. -/
def Layout.exact : Layout := ⟨some (-4, 16), true⟩

/-- Positional text of `digits * 10 ^ exponent`. -/
def positional (keepsPoint : Bool) (d : Scientific) : String :=
  let digits := Nat.toDigits 10 d.digits
  let whole (cs : List Char) := if keepsPoint then cs ++ ['.', '0'] else cs
  if d.exponent ≥ 0 then
    String.ofList (whole (digits ++ List.replicate d.exponent.toNat '0'))
  else
    let places := (-d.exponent).toNat
    if digits.length > places then
      let point := digits.length - places
      String.ofList (digits.take point ++ '.' :: digits.drop point)
    else
      String.ofList ('0' :: '.' :: List.replicate (places - digits.length) '0' ++ digits)

/-- Text with one digit before the point and a power of ten. -/
def scientific (d : Scientific) : String :=
  let digits := Nat.toDigits 10 d.digits
  let power := d.exponent + (digits.length - 1 : Nat)
  let fraction := digits.drop 1
  String.ofList (digits.take 1 ++ (if fraction.isEmpty then [] else '.' :: fraction)) ++ "e" ++
    toString power

/-- The text of a decimal in a layout. -/
def Layout.text (l : Layout) (d : Scientific) : String :=
  let top := d.exponent + digitCount d.digits
  match l.bounds with
  | none => positional l.keepsPoint d
  | some (least, bound) =>
    if d.digits = 0 || (least < top && top ≤ bound) then positional l.keepsPoint d else scientific d

/-- The text of a datum in a layout: its shortest decimal. -/
def Layout.datum (l : Layout) (f : Format) : Datum → String
  | .notANumber => "NaN"
  | .infinite negative => (if negative then "-" else "") ++ "inf"
  | .finite negative significand exponent =>
    (if negative then "-" else "") ++ l.text (shortest f significand exponent)

/-- The text of a 32-bit number. -/
def Layout.single (l : Layout) (v : Float32) : String :=
  l.datum .single (Format.single.decode v.toBits.toNat)

/-- The text of a 64-bit number. -/
def Layout.double (l : Layout) (v : Float) : String :=
  l.datum .double (Format.double.decode v.toBits.toNat)

end Packwright.Decimal
