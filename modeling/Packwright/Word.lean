/-!
# Words

Integers of the four widths of the language, in two's complement.  Arithmetic is done on `Int` and
brought back to the width by `Word.ofInt`, which reduces modulo `2 ^ bits`.
-/

namespace Packwright

/-- The widths of integers. -/
inductive Width where
  | byte
  | short
  | int
  | long
  deriving DecidableEq, Repr, Inhabited

namespace Width

/-- The number of binary digits of a width. -/
def bits : Width → Nat
  | byte => 8
  | short => 16
  | int => 32
  | long => 64

/-- The least value of a width. -/
def least (w : Width) : Int := -(Int.pow 2 (w.bits - 1))

/-- The greatest value of a width. -/
def greatest (w : Width) : Int := Int.pow 2 (w.bits - 1) - 1

/-- Whether an integer is a value of the width. -/
def holds (w : Width) (n : Int) : Bool := w.least ≤ n && n ≤ w.greatest

end Width

/-- A two's complement integer of a width. -/
abbrev Word (w : Width) := BitVec w.bits

/-- The words that scores hold. -/
abbrev Amount := Word .int

namespace Word

/-- The word of an integer that the width holds. -/
def ofInt? (w : Width) (n : Int) : Option (Word w) :=
  if w.holds n then some (BitVec.ofInt w.bits n) else none

/-- The decimal text of a word. -/
def text {w : Width} (v : Word w) : String := toString v.toInt

/-- The integer of a decimal text: digits after at most one sign, `+` or `-`. -/
def parseInt? (s : List Char) : Option Int :=
  let magnitude (digits : List Char) : Option Int :=
    if digits.isEmpty || !digits.all Char.isDigit then none
    else some (digits.foldl (fun n d => n * 10 + (d.toNat - '0'.toNat)) 0 : Nat)
  match s with
  | '-' :: digits => (magnitude digits).map Neg.neg
  | '+' :: digits => magnitude digits
  | digits => magnitude digits

/-- The word of a decimal text whose value the width holds. -/
def parse? (w : Width) (s : List Char) : Option (Word w) := (parseInt? s).bind (ofInt? w)

end Word

end Packwright
