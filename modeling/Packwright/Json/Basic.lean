/-!
# JSON documents

The documents, and their two written forms: `Json.compact` on one line and `Json.pretty` with two
blanks of indentation.  A number is kept as it is written.
-/

namespace Packwright

/-- A JSON document.  The entries of an object are kept as they are written, a key may repeat. -/
inductive Json where
  | null
  | bool (value : Bool)
  | number (text : String)
  | string (text : String)
  | array (items : List Json)
  | object (entries : List (String × Json))
  /-- A string, or an object with a key, in which half of a pair of escapes stands alone.  It is
  well formed and has no text. -/
  | garbled
  deriving Inhabited

namespace Json

/-- A natural number. -/
def nat (n : Nat) : Json := number (toString n)

/-- The written form of a character inside a string. -/
def escape (c : Char) : List Char :=
  if c = '"' then ['\\', '"']
  else if c = '\\' then ['\\', '\\']
  else if c = '\n' then ['\\', 'n']
  else if c = '\r' then ['\\', 'r']
  else if c = '\t' then ['\\', 't']
  else if c = '\x08' then ['\\', 'b']
  else if c = '\x0c' then ['\\', 'f']
  else if c.toNat < 0x10 then ['\\', 'u', '0', '0', '0'] ++ Nat.toDigits 16 c.toNat
  else if c.toNat < 0x20 then ['\\', 'u', '0', '0'] ++ Nat.toDigits 16 c.toNat
  else [c]

/-- A string between its quotes. -/
def quote (s : String) : String := String.ofList ('"' :: s.toList.flatMap escape ++ ['"'])

mutual

/-- The document on one line, without blanks. -/
def compact : Json → String
  | null => "null"
  | bool b => if b then "true" else "false"
  | number s => s
  | string s => quote s
  | garbled => quote "\uFFFD"
  | array items => "[" ++ ",".intercalate (compactAll items) ++ "]"
  | object entries => "\x7b" ++ ",".intercalate (compactEntries entries) ++ "\x7d"

/-- The items of an array, each on one line. -/
def compactAll : List Json → List String
  | [] => []
  | j :: js => compact j :: compactAll js

/-- The entries of an object, each on one line. -/
def compactEntries : List (String × Json) → List String
  | [] => []
  | (key, j) :: es => (quote key ++ ":" ++ compact j) :: compactEntries es

end

/-- Lines between two brackets, one step further in than `indent`. -/
def bracketed (left right indent : String) (lines : List String) : String :=
  if lines.isEmpty then left ++ right
  else
    left ++ "\n" ++ ",\n".intercalate (lines.map (indent ++ "  " ++ ·)) ++ "\n" ++ indent ++ right

mutual

/-- The document on lines of its own; all but the first begin with `indent`. -/
def prettyFrom (indent : String) : Json → String
  | array items => bracketed "[" "]" indent (prettyAll (indent ++ "  ") items)
  | object entries => bracketed "\x7b" "\x7d" indent (prettyEntries (indent ++ "  ") entries)
  | null => compact null
  | bool b => compact (bool b)
  | number s => compact (number s)
  | string s => compact (string s)
  | garbled => compact garbled

/-- The items of an array. -/
def prettyAll (indent : String) : List Json → List String
  | [] => []
  | j :: js => prettyFrom indent j :: prettyAll indent js

/-- The entries of an object. -/
def prettyEntries (indent : String) : List (String × Json) → List String
  | [] => []
  | (key, j) :: es => (quote key ++ ": " ++ prettyFrom indent j) :: prettyEntries indent es

end

/-- The document with every item and entry on a line of its own. -/
def pretty (j : Json) : String := prettyFrom "" j

end Json

end Packwright
