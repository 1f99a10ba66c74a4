import Packwright.Decimal.Reading
import Packwright.Issue
import Packwright.Text.Split

/-!
# From characters to tokens

The source is cut into pieces without a gap: blanks and comments, runs of line breaks, and tokens.
`Piece.scan` reads one piece and says how many characters it takes; `pieces` goes on until the
source is used up.  `settle` then drops the line breaks that do not separate statements.
-/

namespace Packwright

namespace Lexical

/-- The characters that begin a name. -/
def isNameStart (c : Char) : Bool := c.isAlpha || c = '_'

/-- The characters that go on with a name. -/
def isNamePart (c : Char) : Bool := c.isAlphanum || c = '_'

/-- The characters of the path of a resource id. -/
def isPathPart (c : Char) : Bool := c.isAlphanum || c = '_' || c = '/' || c = '-' || c = '.'

/-- The characters that break lines. -/
def isBreak (c : Char) : Bool := c = '\n' || c = '\r'

/-- The number of leading characters with a property. -/
def run (p : Char → Bool) (cs : List Char) : Nat := (cs.takeWhile p).length

/-- The text of the first `n` characters. -/
def taken (cs : List Char) (n : Nat) : String := String.ofList (cs.take n)

end Lexical

open Lexical

/-- A piece of a source. -/
inductive Piece where
  | blank
  | breaks
  | token (token : Token) (issue : Option Issue)

/-- The rest of a string literal behind its opening quote. -/
structure StringBody where
  value : List Char
  /-- The number of characters, the closing quote counted. -/
  length : Nat
  closed : Bool

/-- Reads up to the closing quote or a line break.  A backslash escapes the next character, a line
break too. -/
def StringBody.read : List Char → StringBody
  | [] => ⟨[], 0, false⟩
  | '\\' :: [] => ⟨[], 1, false⟩
  | '\\' :: c :: cs =>
    let body := read cs
    ⟨Text.unescape c :: body.value, body.length + 2, body.closed⟩
  | c :: cs =>
    if c = '"' then ⟨[], 1, true⟩
    else if isBreak c then ⟨[], 0, false⟩
    else
      let body := read cs
      ⟨c :: body.value, body.length + 1, body.closed⟩

/-- The state in which the arguments of a selector are read. -/
structure ArgumentState where
  depth : Nat
  quote : Option Char

/-- Reads the arguments of a selector up to the bracket that closes the first one: how many
characters there are, and whether it was found.  Brackets and braces nest; in quotes nothing counts
but the same quote and a backslash, which escapes the next character. -/
def argumentLength : ArgumentState → List Char → Nat × Bool
  | _, [] => (0, false)
  | ⟨depth, some quote⟩, '\\' :: _ :: cs =>
    let (n, closed) := argumentLength ⟨depth, some quote⟩ cs
    (n + 2, closed)
  | ⟨depth, quote⟩, c :: cs =>
    if c = '\n' then (0, false)
    else
      let next (s : ArgumentState) : Nat × Bool :=
        let (n, closed) := argumentLength s cs
        (n + 1, closed)
      match quote with
      | some q => next ⟨depth, if c = q then none else some q⟩
      | none =>
        if c = '"' || c = '\'' then next ⟨depth, some c⟩
        else if c = '[' || c = '\x7b' then next ⟨depth + 1, none⟩
        else if c = ']' || c = '\x7d' then
          if depth ≤ 1 then (1, true) else next ⟨depth - 1, none⟩
        else next ⟨depth, none⟩

/-- The letter behind a number. -/
inductive Suffix where
  | integer (width : Width)
  | single
  | double

/-- The meaning of a letter behind a number. -/
def Suffix.ofChar? (c : Char) : Option Suffix :=
  match c.toLower with
  | 'b' => some (.integer .byte)
  | 's' => some (.integer .short)
  | 'l' => some (.integer .long)
  | 'f' => some .single
  | 'd' => some .double
  | _ => none

/-- The suffix at the head of a text, which must not go on as a name. -/
def Suffix.read? : List Char → Option Suffix
  | c :: cs => if cs.head?.any isNamePart then none else Suffix.ofChar? c
  | [] => none

/-- A number in parts. -/
structure NumberBody where
  whole : List Char
  /-- The digits behind the point, if there is one. -/
  fraction : Option (List Char)
  suffix : Option Suffix

namespace NumberBody

/-- Reads a number.  The point belongs to it only if a digit follows, so that `3..5` is a range. -/
def read (cs : List Char) : NumberBody :=
  let whole := cs.takeWhile Char.isDigit
  let rest := cs.dropWhile Char.isDigit
  match rest with
  | '.' :: more =>
    let fraction := more.takeWhile Char.isDigit
    if fraction.isEmpty then ⟨whole, none, none⟩
    else ⟨whole, some fraction, Suffix.read? (more.dropWhile Char.isDigit)⟩
  | _ => ⟨whole, none, Suffix.read? rest⟩

/-- The number of characters of a number. -/
def length (n : NumberBody) : Nat :=
  n.whole.length + (n.fraction.map (·.length + 1)).getD 0 + if n.suffix.isSome then 1 else 0

/-- The token of a number written as `text`.  An integer letter behind a decimal point is an issue
and read past; a magnitude that no width holds is an issue and read as zero. -/
def token (n : NumberBody) (text : String) : Token × Option Issue :=
  let fraction := n.fraction.getD []
  let whole (w : Width) : Token × Option Issue :=
    let magnitude := Decimal.natural n.whole
    if magnitude < Nat.pow 2 63 then (.integer w magnitude, none)
    else (.integer .int 0, some (.numberOutOfRange text))
  match n.suffix, n.fraction with
  | some .single, _ => (.single (Decimal.readSingle n.whole fraction), none)
  | some .double, _ => (.double (Decimal.readDouble n.whole fraction), none)
  | some (.integer _), some _ =>
    (.double (Decimal.readDouble n.whole fraction), some (.integerSuffix text))
  | none, some _ => (.double (Decimal.readDouble n.whole fraction), none)
  | some (.integer w), none => whole w
  | none, none => whole .int

end NumberBody

namespace Piece

/-- Reads a selector or an annotation behind its `@`: the piece and how many characters of `cs` it
takes. -/
def scanAt (cs : List Char) : Piece × Nat :=
  let length := run isNamePart cs
  let name := cs.take length
  match name with
  | [] => (.token (.invalid "@") (some .loneAt), 0)
  | [kind] =>
    if kind ∈ Selector.kinds then
      let (more, closed) :=
        match cs.drop 1 with
        | '[' :: rest => argumentLength ⟨0, none⟩ ('[' :: rest)
        | _ => (0, true)
      (.token (.selector (taken ('@' :: cs) (more + 2)))
        (if closed then none else some .unterminatedSelector), more + 1)
    else (.token (.marker (String.ofList name)) none, length)
  | _ => (.token (.marker (String.ofList name)) none, length)

/-- Reads a name, a keyword or a resource id that begins with `c`. -/
def scanName (c : Char) (cs : List Char) : Piece × Nat :=
  let length := run isNamePart cs
  match cs.drop length with
  | ':' :: d :: rest =>
    if isNameStart d then
      let all := length + 1 + run isPathPart (d :: rest)
      (.token (.resource (taken (c :: cs) (all + 1))) none, all)
    else (.token (word (taken (c :: cs) (length + 1))) none, length)
  | _ => (.token (word (taken (c :: cs) (length + 1))) none, length)
where
  /-- The token of a word. -/
  word (text : String) : Token :=
    match Keyword.ofText? text with
    | some k => .keyword k
    | none => .name text

/-- Reads a mark, or a character that begins nothing. -/
def scanMark (c : Char) (cs : List Char) : Piece × Nat :=
  match Mark.all.find? fun m => (Text.after? m.text.toList (c :: cs)).isSome with
  | some m => (.token (.mark m) none, m.text.length - 1)
  | none => (.token (.invalid c.toString) (some (.unexpectedCharacter c)), 0)

/-- Reads the piece that begins with `c`: the piece, and how many of the characters `cs` behind `c`
belong to it. -/
def scan (c : Char) (cs : List Char) : Piece × Nat :=
  if c = ' ' || c = '\t' then (.blank, run (fun d => d = ' ' || d = '\t') cs)
  else if c = '/' && cs.head? = some '/' then (.blank, run (· ≠ '\n') cs)
  else if isBreak c then (.breaks, run isBreak cs)
  else if c = '"' then
    let body := StringBody.read cs
    (.token (.string (String.ofList body.value))
      (if body.closed then none else some .unterminatedString), body.length)
  else if c = '@' then scanAt cs
  else if c.isDigit then
    let number := NumberBody.read (c :: cs)
    let (read, issue) := number.token (taken (c :: cs) number.length)
    (.token read issue, number.length - 1)
  else if isNameStart c then scanName c cs
  else scanMark c cs

end Piece

/-- A piece and the bytes it was read from. -/
structure LocatedPiece where
  piece : Piece
  span : Span

/-- The pieces of a text that begins at byte `here`. -/
def pieces (here : Nat) : List Char → List LocatedPiece
  | [] => []
  | c :: cs =>
    let (piece, more) := Piece.scan c cs
    let next := here + Text.size (c :: cs.take more)
    ⟨piece, ⟨here, next⟩⟩ :: pieces next (cs.drop more)
termination_by cs => cs.length
decreasing_by simp only [List.length_drop, List.length_cons]; omega

namespace Located

/-- The tokens so far, the last one first, with one more token.  A line break in front of a token
that carries on with the line is dropped. -/
def push (stack : List Located) (t : Located) : List Located :=
  match stack with
  | last :: rest => if t.token.continuesLine && last.token.isNewline then t :: rest else t :: stack
  | [] => [t]

/-- The tokens so far, the last one first, after one more piece.  Line breaks count only behind a
token that does not go on. -/
def settleOne (stack : List Located) (p : LocatedPiece) : List Located :=
  match p.piece with
  | .blank => stack
  | .breaks =>
    match stack with
    | [] => []
    | last :: _ => if last.token.opensLine then stack else ⟨.newline, p.span⟩ :: stack
  | .token token _ => push stack ⟨token, p.span⟩

/-- The tokens of the pieces of a source of the given size, and the end of the source. -/
def settle (ps : List LocatedPiece) (size : Nat) : List Located :=
  let stack := ps.foldl settleOne []
  let stack :=
    match stack with
    | last :: rest => if last.token.isNewline then rest else stack
    | [] => []
  (⟨.endOfSource, ⟨size, size⟩⟩ :: stack).reverse

end Located

/-- The issue of a piece, at its place. -/
def LocatedPiece.diagnostic? (p : LocatedPiece) : Option Diagnostic :=
  match p.piece with
  | .token _ (some issue) => some ⟨issue, p.span⟩
  | _ => none

/-- The tokens of a source and what is wrong with them.  Only the last token is the end of the
source. -/
def tokenize (source : String) : List Located × List Diagnostic :=
  let ps := pieces 0 source.toList
  (Located.settle ps (Text.size source.toList), ps.filterMap LocatedPiece.diagnostic?)

end Packwright
