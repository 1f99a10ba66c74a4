import Packwright.Text.Unprintable

/-!
# Quoted text

Two ways to put a text between double quotes.  `quote` is the form of string literals: it escapes
the quote, the backslash, the line feed and the tab, and nothing else.  `display` is the form in
which texts are shown to a reader of messages: there every character that would not be seen is
written as an escape.
-/

namespace Packwright.Text

/-- The escaped form of a character inside a string literal. -/
def escape (c : Char) : List Char :=
  if c = '"' then ['\\', '"']
  else if c = '\\' then ['\\', '\\']
  else if c = '\n' then ['\\', 'n']
  else if c = '\t' then ['\\', 't']
  else [c]

/-- The character that an escape letter stands for. -/
def unescape (c : Char) : Char :=
  if c = 'n' then '\n' else if c = 't' then '\t' else c

/-- The inside of a string literal. -/
def escapeAll (s : List Char) : List Char := s.flatMap escape

/-- A string literal with the given value. -/
def quote (s : String) : String := String.ofList ('"' :: escapeAll s.toList ++ ['"'])

/-- The escaped form of a character in a shown text. -/
def displayChar (c : Char) : List Char :=
  if c = '"' then ['\\', '"']
  else if c = '\\' then ['\\', '\\']
  else if c = '\n' then ['\\', 'n']
  else if c = '\r' then ['\\', 'r']
  else if c = '\t' then ['\\', 't']
  else if c.toNat = 0 then ['\\', '0']
  else if isUnprintable c then
    ['\\', 'u', '\x7b'] ++ Nat.toDigits 16 c.toNat ++ ['\x7d']
  else [c]

/-- A text as it is shown in a message. -/
def display (s : String) : String :=
  String.ofList ('"' :: s.toList.flatMap displayChar ++ ['"'])

end Packwright.Text
