/-!
# Splitting text

A text is cut at a separator or after a fixed beginning.  All cuts work on lists of characters.
-/

namespace Packwright.Text

/-- What follows `start` in a text that begins with it. -/
def after? : (start s : List Char) → Option (List Char)
  | [], s => some s
  | _ :: _, [] => none
  | a :: as, b :: bs => if a = b then after? as bs else none

/-- The two sides of the first occurrence of `sep`. -/
def splitOnce (sep : List Char) : List Char → Option (List Char × List Char)
  | [] => if sep.isEmpty then some ([], []) else none
  | c :: cs =>
    match after? sep (c :: cs) with
    | some rest => some ([], rest)
    | none => (splitOnce sep cs).map fun (l, r) => (c :: l, r)

/-- The two sides of the last occurrence of `sep`. -/
def splitLast (sep : List Char) : List Char → Option (List Char × List Char)
  | [] => if sep.isEmpty then some ([], []) else none
  | c :: cs =>
    match splitLast sep cs with
    | some (l, r) => some (c :: l, r)
    | none => (after? sep (c :: cs)).map fun rest => ([], rest)

/-- The parts between the occurrences of one character; there is always one part. -/
def splitAll (sep : Char) : List Char → List (List Char)
  | [] => [[]]
  | c :: cs =>
    match splitAll sep cs with
    | [] => [[]]
    | part :: parts => if c = sep then [] :: part :: parts else (c :: part) :: parts

/-- The size of a text in bytes of its UTF-8 encoding. -/
def size : List Char → Nat
  | [] => 0
  | c :: cs => c.utf8Size + size cs

end Packwright.Text
