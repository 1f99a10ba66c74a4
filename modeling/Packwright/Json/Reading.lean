import Packwright.Json.Basic

/-!
# Reading JSON

`Json.parse?` reads a whole text as one document.  Nothing is forgiven: no comments, no commas at
the end, no leading zeros, no control characters in strings.
-/

namespace Packwright.Json

/-- Blanks between the parts of a document. -/
def isBlank (c : Char) : Bool := c = ' ' || c = '\n' || c = '\r' || c = '\t'

/-- The text behind blanks. -/
def skip (cs : List Char) : List Char := cs.dropWhile isBlank

/-- The value of a hexadecimal digit. -/
def hexDigit? (c : Char) : Option Nat :=
  if '0' ≤ c && c ≤ '9' then some (c.toNat - '0'.toNat)
  else if 'a' ≤ c && c ≤ 'f' then some (c.toNat - 'a'.toNat + 10)
  else if 'A' ≤ c && c ≤ 'F' then some (c.toNat - 'A'.toNat + 10)
  else none

/-- The number written with four hexadecimal digits. -/
def hexUnit? : List Char → Option (Nat × List Char)
  | a :: b :: c :: d :: rest =>
    match hexDigit? a, hexDigit? b, hexDigit? c, hexDigit? d with
    | some a, some b, some c, some d => some (((a * 16 + b) * 16 + c) * 16 + d, rest)
    | _, _, _, _ => none
  | _ => none

/-- The character that a letter behind a backslash stands for. -/
def escaped? : Char → Option Char
  | '"' => some '"'
  | '\\' => some '\\'
  | '/' => some '/'
  | 'b' => some '\x08'
  | 'f' => some '\x0c'
  | 'n' => some '\n'
  | 'r' => some '\r'
  | 't' => some '\t'
  | _ => none

/-- What stands between the quotes of a string, piece by piece: characters, and units of 16 bits
written as escapes. -/
inductive Unit16 where
  | char (c : Char)
  | unit (n : Nat)

/-- Reads a string behind its first quote.  At most `steps` pieces are read. -/
def readUnits : (steps : Nat) → List Char → Option (List Unit16 × List Char)
  | 0, _ => none
  | _ + 1, [] => none
  | steps + 1, '\\' :: 'u' :: cs =>
    (hexUnit? cs).bind fun (n, rest) =>
      (readUnits steps rest).map fun (us, rest) => (.unit n :: us, rest)
  | steps + 1, '\\' :: c :: cs =>
    (escaped? c).bind fun c => (readUnits steps cs).map fun (us, rest) => (.char c :: us, rest)
  | steps + 1, c :: cs =>
    if c = '"' then some ([], cs)
    else if c.toNat < 0x20 || c = '\\' then none
    else (readUnits steps cs).map fun (us, rest) => (.char c :: us, rest)

/-- Whether a unit is the first half of a pair. -/
def isHigh (n : Nat) : Bool := 0xd800 ≤ n && n < 0xdc00

/-- Whether a unit is the second half of a pair. -/
def isLow (n : Nat) : Bool := 0xdc00 ≤ n && n < 0xe000

/-- The text of the pieces of a string; there is none if half of a pair stands alone. -/
def textOf? : List Unit16 → Option (List Char)
  | [] => some []
  | .char c :: us => (textOf? us).map (c :: ·)
  | .unit n :: us =>
    if isHigh n then
      match us with
      | .unit m :: us =>
        if isLow m then
          (textOf? us).map (Char.ofNat (0x10000 + (n - 0xd800) * 0x400 + (m - 0xdc00)) :: ·)
        else none
      | _ => none
    else if isLow n then none
    else (textOf? us).map (Char.ofNat n :: ·)

/-- Reads a string behind its first quote: its text, if it has one. -/
def readString? (cs : List Char) : Option (Option String × List Char) :=
  (readUnits (cs.length + 1) cs).map fun (us, rest) => ((textOf? us).map String.ofList, rest)

/-- Reads one digit or more. -/
def readDigits? (cs : List Char) : Option (List Char × List Char) :=
  let digits := cs.takeWhile Char.isDigit
  if digits.isEmpty then none else some (digits, cs.dropWhile Char.isDigit)

/-- Reads the digits before the point: a zero stands alone. -/
def readWhole? : List Char → Option (List Char × List Char)
  | '0' :: cs => if (cs.head?.any Char.isDigit) then none else some (['0'], cs)
  | cs => readDigits? cs

/-- Reads a point and the digits behind it, if there is one. -/
def readFraction? : List Char → Option (List Char × List Char)
  | '.' :: cs => (readDigits? cs).map fun (ds, rest) => ('.' :: ds, rest)
  | cs => some ([], cs)

/-- Reads a power of ten, if there is one. -/
def readPower? : List Char → Option (List Char × List Char)
  | c :: cs =>
    if c = 'e' || c = 'E' then
      match cs with
      | sign :: rest =>
        if sign = '+' || sign = '-' then
          (readDigits? rest).map fun (ds, rest) => (c :: sign :: ds, rest)
        else (readDigits? cs).map fun (ds, rest) => (c :: ds, rest)
      | [] => none
    else some ([], c :: cs)
  | [] => some ([], [])

/-- Reads a number. -/
def readNumber? (cs : List Char) : Option (Json × List Char) := do
  let (sign, cs) :=
    match cs with
    | '-' :: cs => (['-'], cs)
    | cs => ([], cs)
  let (whole, cs) ← readWhole? cs
  let (fraction, cs) ← readFraction? cs
  let (power, cs) ← readPower? cs
  return (number (String.ofList (sign ++ whole ++ fraction ++ power)), cs)

/-- The object with some entries, of which one may have a key without a text. -/
def objectOf (entries : List (Option String × Json)) : Json :=
  match entries.mapM fun (key, j) => key.map (·, j) with
  | some entries => object entries
  | none => garbled

mutual

/-- Reads a document, in which documents are nested at most `depth` deep. -/
def readValue : (depth : Nat) → List Char → Option (Json × List Char)
  | 0, _ => none
  | depth + 1, cs =>
    match cs with
    | 'n' :: 'u' :: 'l' :: 'l' :: cs => some (null, cs)
    | 't' :: 'r' :: 'u' :: 'e' :: cs => some (bool true, cs)
    | 'f' :: 'a' :: 'l' :: 's' :: 'e' :: cs => some (bool false, cs)
    | '"' :: cs =>
      (readString? cs).map fun (s, rest) =>
        match s with
        | some text => (string text, rest)
        | none => (garbled, rest)
    | '[' :: cs =>
      match skip cs with
      | ']' :: cs => some (array [], cs)
      | cs => (readItems depth cs).map fun (items, rest) => (array items, rest)
    | c :: cs =>
      if c = '\x7b' then
        match skip cs with
        | '\x7d' :: cs => some (object [], cs)
        | cs => (readEntries depth cs).map fun (entries, rest) => (objectOf entries, rest)
      else readNumber? (c :: cs)
    | [] => none

/-- Reads the items of an array and the bracket behind them. -/
def readItems : (depth : Nat) → List Char → Option (List Json × List Char)
  | 0, _ => none
  | depth + 1, cs =>
    match readValue depth (skip cs) with
    | none => none
    | some (item, rest) =>
      match skip rest with
      | ',' :: rest => (readItems depth rest).map fun (items, rest) => (item :: items, rest)
      | ']' :: rest => some ([item], rest)
      | _ => none

/-- Reads the entries of an object and the brace behind them. -/
def readEntries : (depth : Nat) → List Char → Option (List (Option String × Json) × List Char)
  | 0, _ => none
  | depth + 1, cs =>
    match skip cs with
    | '"' :: cs =>
      match readString? cs with
      | none => none
      | some (key, rest) =>
        match skip rest with
        | ':' :: rest =>
          match readValue depth (skip rest) with
          | none => none
          | some (j, rest) =>
            match skip rest with
            | ',' :: rest =>
              (readEntries depth rest).map fun (entries, rest) => ((key, j) :: entries, rest)
            | '\x7d' :: rest => some ([(key, j)], rest)
            | _ => none
        | _ => none
    | _ => none

end

/-- The document that a text is. -/
def parse? (text : String) : Option Json :=
  match readValue (text.length + 1) (skip text.toList) with
  | some (j, rest) => if (skip rest).isEmpty then some j else none
  | none => none

end Packwright.Json
