import Packwright.Issue
import Packwright.Tree.Stmt

/-!
# Reading tokens

The state in which a tree is read: the tokens that are left, the place of the last token that was
taken, what has been found so far, and the names in scope.  The last token is never given up, so
there is always a next token to look at.
-/

namespace Packwright

/-- A name in scope and its type. -/
structure Binding where
  name : String
  ty : Ty

/-- The state of reading. -/
structure Parsing where
  /-- The tokens that are left, the current one first. -/
  rest : List Located
  /-- The place of the token that was taken last. -/
  last : Span := ⟨0, 0⟩
  report : Report := {}
  /-- The names in scope, the innermost scope first, each in the order of declaration. -/
  scopes : List (List Binding) := [[]]
  /-- The enumerations declared so far. -/
  enums : List String := []

namespace Parsing

/-- The current token. -/
def peek (s : Parsing) : Token :=
  match s.rest with
  | t :: _ => t.token
  | [] => .endOfSource

/-- The place of the current token. -/
def here (s : Parsing) : Span :=
  match s.rest with
  | t :: _ => t.span
  | [] => s.last

/-- The state after the current token has been taken.  The last token stays. -/
def advance (s : Parsing) : Parsing :=
  match s.rest with
  | t :: u :: ts => { s with rest := u :: ts, last := t.span }
  | _ => { s with last := s.here }

/-- Whether the current token begins where the token before it ended. -/
def adjacent (s : Parsing) : Bool := s.here.start = s.last.stop

/-- Passes over the tokens with a property. -/
def skipTokens (p : Token → Bool) (last : Span) : List Located → Span × List Located
  | t :: u :: ts => if p t.token then skipTokens p t.span (u :: ts) else (last, t :: u :: ts)
  | ts => (last, ts)

/-- The state after the tokens with a property. -/
def skipWhile (p : Token → Bool) (s : Parsing) : Parsing :=
  let (last, rest) := skipTokens p s.last s.rest
  { s with rest, last }

/-- Passes over the rest of a line, in which braces are balanced, and over what ends the line.  It
stops in front of the brace that closes the block around the line. -/
def skipLine : (depth : Nat) → (last : Span) → List Located → Span × List Located
  | depth, last, t :: u :: ts =>
    let line : Bool :=
      match t.token with
      | .newline | .mark .semicolon => depth = 0
      | _ => false
    if line then (t.span, u :: ts)
    else
      match t.token with
      | .endOfSource => (last, t :: u :: ts)
      | .mark .lbrace => skipLine (depth + 1) t.span (u :: ts)
      | .mark .rbrace =>
        if depth = 0 then (last, t :: u :: ts) else skipLine (depth - 1) t.span (u :: ts)
      | _ => skipLine depth t.span (u :: ts)
  | _, last, ts => (last, ts)

/-- The state after the rest of the line. -/
def recover (s : Parsing) : Parsing :=
  let (last, rest) := skipLine 0 s.last s.rest
  { s with rest, last }

/-- The state with one more diagnostic. -/
def complain (s : Parsing) (issue : Issue) (span : Span) : Parsing :=
  { s with report := s.report.add ⟨issue, span⟩ }

/-- The state with candidates for a place. -/
def suggest (s : Parsing) (span : Span) (candidates : List String) : Parsing :=
  { s with report := s.report.suggest span candidates }

/-- The binding of a name in the innermost scope that has one; the last one there counts. -/
def lookup? (s : Parsing) (name : String) : Option Binding :=
  s.scopes.findSome? fun scope => scope.reverse.find? (·.name = name)

/-- The state with a name declared in the innermost scope. -/
def declare (s : Parsing) (name : String) (ty : Ty) : Parsing :=
  match s.scopes with
  | scope :: outer => { s with scopes := (scope ++ [⟨name, ty⟩]) :: outer }
  | [] => s

/-- The names in scope, each once, the innermost scope first. -/
def visibleNames (s : Parsing) : List String :=
  (s.scopes.flatten.map (·.name)).foldl
    (fun names n => if n ∈ names then names else names ++ [n]) []

/-- The state inside a new scope. -/
def enterScope (s : Parsing) : Parsing := { s with scopes := [] :: s.scopes }

/-- The state behind the innermost scope. -/
def leaveScope (s : Parsing) : Parsing := { s with scopes := s.scopes.drop 1 }

end Parsing

/-- Reading with a state.  A failure keeps the state in which it happened. -/
abbrev Parse := EStateM Diagnostic Parsing

namespace Parse

/-- The current token. -/
def peek : Parse Token := return (← get).peek

/-- The place of the current token. -/
def here : Parse Span := return (← get).here

/-- The place of the token that was taken last. -/
def last : Parse Span := return (← get).last

/-- The number of tokens that are left. -/
def left : Parse Nat := return (← get).rest.length

/-- Takes the current token. -/
def advance : Parse Span := do
  let span ← here
  modify Parsing.advance
  return span

/-- Whether the current token is a given mark. -/
def isAt (m : Mark) : Parse Bool := return (← get).peek.isMark m

/-- Takes the current token if it is a given mark. -/
def eat (m : Mark) : Parse Bool := do
  if ← isAt m then
    modify Parsing.advance
    return true
  else return false

/-- Fails at the current token. -/
def failExpecting {α : Type} (what : String) : Parse α := do
  throw ⟨.expected what (← peek), ← here⟩

/-- Takes a given mark. -/
def expect (m : Mark) : Parse Span := do
  if ← isAt m then advance else failExpecting ("`" ++ m.text ++ "`")

/-- Takes a name. -/
def expectName : Parse Declared := do
  match ← peek with
  | .name text => return ⟨text, ← advance⟩
  | _ => failExpecting "identifier"

/-- Reports an issue and goes on. -/
def complain (issue : Issue) (span : Span) : Parse Unit := modify (·.complain issue span)

/-- Passes over line breaks. -/
def skipNewlines : Parse Unit := modify (Parsing.skipWhile Token.isNewline)

/-- Reads inside a scope of its own, which is left also after a failure. -/
def inScope {α : Type} (p : Parse α) : Parse α := fun s =>
  match p s.enterScope with
  | .ok a s => .ok a s.leaveScope
  | .error d s => .error d s.leaveScope

end Parse

end Packwright
