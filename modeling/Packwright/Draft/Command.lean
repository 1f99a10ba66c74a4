import Packwright.Draft.Expression
import Packwright.Json.Basic
import Packwright.Tree.Stmt

/-!
# Generating from command statements
-/

namespace Packwright

open Gen

/-- A score in a chat message. -/
def Score.component (s : Score) : Json :=
  .object [("score", .object [("name", .string s.entry), ("objective", .string s.objective)])]

/-- A value in a chat message. -/
def Value.component : Value → Gen Json
  | .score s => return s.component
  | .selector s => return .object [("selector", .string s.text)]
  | .data path => return .object [("entity", .string path.target.text), ("nbt", .string path.path)]
  | .condition c => return (← Score.ofCondition c).component
  | v => return .object [("text", .string v.plain)]

namespace Command

/-- The components of a chat message; what has no value is left out. -/
def components : List Expr → Gen (List Json)
  | [] => return []
  | e :: es => do
    match ← e.generate.run with
    | none => components es
    | some v =>
      let component ← v.component
      return component :: (← components es)

/-- The words for an optional part of a command. -/
def optional (before : String) (what : String) : Option Expr → OptionT Gen String
  | none => return ""
  | some e => return before ++ (← e.generateConstant what).render

/-- Writes the line of a command, if all its parts have values. -/
def generate : Command → OptionT Gen Unit
  | say message => do
    let v ← message.generateConstant "`say` text"
    emit ("say " ++ v.plain)
  | tellraw target parts => do
    let selector ← target.generateSelector
    let message := Json.array (.string "" :: (← components parts))
    emit ("tellraw " ++ selector.text ++ " " ++ message.compact)
  | give target item count => do
    let selector ← target.generateSelector
    let v ← item.generateConstant "Item"
    let number ← optional " " "Item count" count
    emit ("give " ++ selector.text ++ " " ++ v.render ++ number)
  | tag target add name => do
    let selector ← target.generateSelector
    emit ("tag " ++ selector.text ++ (if add then " add " else " remove ") ++ name)
  | kill none => emit "kill"
  | kill (some target) => do
    let selector ← target.generateSelector
    emit ("kill " ++ selector.text)
  | summon entity data => do
    let v ← entity.generateConstant "Entity"
    let details ← optional " ~ ~ ~ " "Entity data" data
    emit ("summon " ++ v.render ++ details)
  | raw text => do
    match ← text.generateConstant "`cmd` text" with
    | .string line => emit line
    | _ => failure

end Command

end Packwright
