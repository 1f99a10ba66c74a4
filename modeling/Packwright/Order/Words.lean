import Packwright.Text.Blank

/-!
# The words of a command

A command is a sequence of words between blanks.  What stands in brackets, braces or quotes is not
divided.  A closing bracket that nothing opened belongs to no word unless it is inside of one.
-/

namespace Packwright.Words

/-- Where in a word a reader is. -/
inductive Place where
  /-- Inside of as many brackets and braces. -/
  | nested (depth : Nat)
  /-- In quotes, inside of as many brackets and braces; `escaped` behind a backslash. -/
  | quoted (depth : Nat) (escaped : Bool)
  deriving DecidableEq, Repr

/-- The place behind a character. -/
def Place.next : Place → Char → Place
  | quoted depth true, _ => quoted depth false
  | quoted depth false, c =>
    if c = '\\' then quoted depth true else if c = '"' then nested depth else quoted depth false
  | nested depth, c =>
    if c = '"' then quoted depth false
    else if c = '[' || c = '\x7b' then nested (depth + 1)
    else if c = ']' || c = '\x7d' then nested (depth - 1)
    else nested depth

/-- Whether a word ends at a character. -/
def Place.ends (p : Place) (c : Char) : Bool := p = nested 0 && Text.isBlank c

/-- Whether a character begins a word between words. -/
def begins (c : Char) : Bool := !Text.isBlank c && c ≠ ']' && c ≠ '\x7d'

mutual

/-- The words of a text that begins between words. -/
def between : List Char → List (List Char)
  | [] => []
  | c :: cs => if begins c then inside (.next (.nested 0) c) [c] cs else between cs

/-- The words of a text that begins inside a word; `word` is its first part, the last character in
front. -/
def inside (place : Place) (word : List Char) : List Char → List (List Char)
  | [] => [word.reverse]
  | c :: cs =>
    if place.ends c then word.reverse :: between cs else inside (place.next c) (c :: word) cs

end

/-- The words of a command. -/
def ofText (s : String) : List String := (between s.toList).map String.ofList

end Packwright.Words
