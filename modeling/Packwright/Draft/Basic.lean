import Packwright.Issue
import Packwright.Order.Line
import Packwright.Pack.Basic
import Packwright.Value.Basic

/-!
# Drafts

A draft is a pack in the making: the command lists that are finished, the lists that are being
written, the values that names are bound to, and what has been used up of the supply of names.
Generation is a computation on a draft.
-/

namespace Packwright

/-- How a pack is named and finished. -/
structure Options where
  /-- The space of all command lists. -/
  space : String := "datascript"
  /-- The objective of all scores that generation makes. -/
  objective : String := "datascript"
  /-- The command list of the statements outside of functions. -/
  main : String := "main"
  /-- The folder of generated command lists. -/
  generatedDir : String := "__generated__"
  /-- Whether the finished pack is cleaned up. -/
  cleanup : Bool := true
  deriving DecidableEq, Repr, Inhabited

/-- What generated names are counted by. -/
inductive Series where
  /-- Scores for one purpose. -/
  | temp (purpose : String)
  /-- Command lists for one purpose. -/
  | list (purpose : String)
  /-- Variables of one name. -/
  | variable (name : String)
  deriving DecidableEq, Repr

/-- A pack in the making. -/
structure Draft where
  options : Options
  pack : Pack
  /-- The lists that are being written, the innermost first. -/
  frames : List (Array String) := [#[]]
  /-- The values of names, the innermost scope first. -/
  scopes : List (Table String Value) := [[]]
  /-- How often each series of names has been drawn from. -/
  counters : Table Series Nat := []
  /-- The entries of variables that are taken. -/
  taken : List String := []
  /-- What was found wrong with the script that is being added. -/
  issues : List Diagnostic := []

namespace Draft

/-- The draft of an empty pack. -/
def empty (options : Options) : Draft := { options, pack := { space := options.space } }

/-- How often a series has been drawn from. -/
def count (d : Draft) (series : Series) : Nat := (d.counters.get? series).getD 0

/-- The draft after one more draw from a series. -/
def draw (d : Draft) (series : Series) : Draft :=
  { d with counters := d.counters.put series (d.count series + 1) }

/-- The draft with a line at the end of the innermost list. -/
def emit (d : Draft) (line : String) : Draft :=
  match d.frames with
  | frame :: outer => { d with frames := frame.push line :: outer }
  | [] => d

/-- The draft with a name bound in the innermost scope. -/
def bind (d : Draft) (name : String) (value : Value) : Draft :=
  match d.scopes with
  | scope :: outer => { d with scopes := scope.put name value :: outer }
  | [] => d

/-- The value of a name in the innermost scope that has one. -/
def lookup? (d : Draft) (name : String) : Option Value := d.scopes.findSome? (·.get? name)

/-- The entry of the `n`th variable of a name. -/
def variableEntry (name : String) : Nat → String
  | 0 => "$" ++ name
  | n + 1 => "$" ++ name ++ "_" ++ toString (n + 1)

/-- The first number from `n` on whose entry for a name is not taken.  One of `taken.length + 1`
numbers is such. -/
def freeNumber (taken : List String) (name : String) : (steps n : Nat) → Nat
  | 0, n => n
  | steps + 1, n =>
    if variableEntry name n ∈ taken then freeNumber taken name steps (n + 1) else n

end Draft

/-- Computations on a draft. -/
abbrev Gen := StateM Draft

namespace Gen

/-- Draws from a series: the number of earlier draws. -/
def draw (series : Series) : Gen Nat := modifyGet fun d => (d.count series, d.draw series)

/-- A score of its own for a purpose. -/
def temp (purpose : String) : Gen Score := do
  let n ← draw (.temp purpose)
  return ⟨"#" ++ purpose ++ toString n, (← get).options.objective⟩

/-- The id of a command list of its own for a purpose. -/
def reserve (purpose : String) : Gen ResourceId := do
  let n ← draw (.list purpose)
  let options := (← get).options
  return ⟨options.space, options.generatedDir ++ "/" ++ purpose ++ "_" ++ toString n⟩

/-- Puts a command list into the pack. -/
def addFunction (id : ResourceId) (lines : List String) : Gen Unit :=
  modify fun d => { d with pack := d.pack.addFunction id lines }

/-- Puts a command list for a purpose into the pack. -/
def synthesize (purpose : String) (lines : List String) : Gen ResourceId := do
  let id ← reserve purpose
  addFunction id lines
  return id

/-- Writes a line. -/
def emit (line : String) : Gen Unit := modify (·.emit line)

/-- Writes several lines. -/
def emitAll : List String → Gen Unit
  | [] => return
  | line :: lines => do
    emit line
    emitAll lines

/-- Does something and returns its result with the lines that it writes, which go no further. -/
def capture {α : Type} (act : Gen α) : Gen (α × List String) := do
  modify fun d => { d with frames := #[] :: d.frames }
  let result ← act
  let lines := ((← get).frames.head?.map Array.toList).getD []
  modify fun d => { d with frames := d.frames.drop 1 }
  return (result, lines)

/-- The command that does what a list does: its only line, or a call of the list. -/
def asCommand (purpose : String) : List String → Gen String
  | [line] => return line
  | lines => return Line.call (← synthesize purpose lines)

/-- Does something in a scope of its own. -/
def inScope {α : Type} (act : Gen α) : Gen α := do
  modify fun d => { d with scopes := [] :: d.scopes }
  let result ← act
  modify fun d => { d with scopes := d.scopes.drop 1 }
  return result

/-- Binds a name in the innermost scope. -/
def bind (name : String) (value : Value) : Gen Unit := modify (·.bind name value)

/-- The score of a new variable.  The first one of a name has the name itself for its entry, later
ones a number behind it. -/
def newVariable (name : String) : Gen Score := do
  let d ← get
  let plain := Draft.variableEntry name 0
  if plain ∉ d.taken then
    set { d with taken := plain :: d.taken }
    return ⟨plain, d.options.objective⟩
  else
    let n := Draft.freeNumber d.taken name d.taken.length (d.count (.variable name) + 1)
    let entry := Draft.variableEntry name n
    set { d with
      taken := entry :: d.taken, counters := d.counters.put (.variable name) n }
    return ⟨entry, d.options.objective⟩

/-- Notes that something is wrong. -/
def complain (issue : Issue) (span : Span) : Gen Unit :=
  modify fun d => { d with issues := d.issues ++ [⟨issue, span⟩] }

end Gen

end Packwright
