import Packwright.Machine.World
import Packwright.Pack.Basic

/-!
# Running commands

The program of a pack holds the orders of its command lists.  `Program.run` carries out a list in a
world.  Lists call one another to a limited depth, and the number of commands of a world is limited,
so that every run ends.
-/

namespace Packwright

/-- The orders of command lists. -/
abbrev Program := Table ResourceId (List Order)

/-- The orders of the command lists of a pack. -/
def Pack.program (p : Pack) : Program := p.functions.mapValues fun lines => lines.map Order.ofText

theorem Pack.get?_program (p : Pack) (id : ResourceId) :
    p.program.get? id = (p.function? id).map fun lines => lines.map Order.ofText :=
  Table.get?_mapValues p.functions _ id

/-- Why a run ends early. -/
inductive Fault where
  | unknownFunction (id : ResourceId)
  | malformed (line : String)
  | depthExceeded
  | budgetExhausted
  deriving DecidableEq, Repr

/-- The wording of a fault. -/
def Fault.message : Fault → String
  | unknownFunction id => s!"unknown function `{id.text}`"
  | malformed line => s!"malformed command `{line}`"
  | depthExceeded => "maximum call depth exceeded"
  | budgetExhausted => "command budget exhausted"

/-- Whether the list goes on behind a command. -/
inductive Flow where
  | next
  | leave
  deriving DecidableEq, Repr

/-- Runs in a world.  A fault leaves the world as it was when the fault happened. -/
abbrev Run := EStateM Fault World

namespace Run

/-- How many calls can be inside one another. -/
def maxDepth : Nat := 512

/-- How many commands a world carries out. -/
def budget : Nat := 1000000

/-- Counts a command. -/
def count : Run Unit := do
  modify fun w => { w with executed := w.executed + 1 }
  if (← get).executed > budget then throw .budgetExhausted

/-- Makes a test and counts it. -/
def test (t : Test) (text : String) : Run Bool :=
  modifyGet fun w => (w.outcome text t, w.evaluated text)

/-- Carries out an order; `callee` carries out the list with an id. -/
def order (callee : ResourceId → Run Unit) : Order → Run Flow
  | .nothing => return .next
  | .adjust change score amount => do
    modify (·.adjust change score amount)
    return .next
  | .reset score => do
    modify (·.resetScore score)
    return .next
  | .combine target combination source => do
    modify (·.combine target combination source)
    return .next
  | .call id => do
    callee id
    return .next
  | .leave => return .leave
  | .guard expected t text rest => do
    if (← test t text) = expected then order callee rest else return .next
  | .fetch target question => do
    modify fun w => w.setScore target ((w.data.get? question).getD 0)
    return .next
  | .run rest => do
    count
    order callee rest
  | .print line => do
    modify fun w => { w with output := w.output.push line }
    return .next
  | .malformed line => throw (.malformed line)

/-- Carries out a command. -/
def command (callee : ResourceId → Run Unit) (o : Order) : Run Flow := do
  count
  order callee o

/-- Carries out commands until one leaves the list. -/
def commands (callee : ResourceId → Run Unit) : List Order → Run Unit
  | [] => return
  | o :: os => do
    match ← command callee o with
    | .leave => return
    | .next => commands callee os

/-- Carries out a list of a program, with `depth` calls inside one another at most. -/
def function (p : Program) : (depth : Nat) → ResourceId → Run Unit
  | 0, _ => throw .depthExceeded
  | depth + 1, id =>
    match p.get? id with
    | none => throw (.unknownFunction id)
    | some os => commands (function p depth) os

end Run

namespace Program

/-- Carries out a list: the fault, if there is one, and the world afterwards. -/
def run (p : Program) (w : World) (id : ResourceId) : Option Fault × World :=
  match Run.function p (Run.maxDepth + 1) id w with
  | .ok _ w => (none, w)
  | .error fault w => (some fault, w)

/-- Carries out several lists, going on behind a fault. -/
def runAll (p : Program) : World → List ResourceId → List (Option Fault) × World
  | w, [] => ([], w)
  | w, id :: ids =>
    let (fault, w) := p.run w id
    let (faults, w) := runAll p w ids
    (fault :: faults, w)

end Program

end Packwright
