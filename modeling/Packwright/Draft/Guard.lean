import Packwright.Draft.Basic

/-!
# Guarding a command by a condition

A command can be guarded by predicates only, so a condition is brought down to several lines.
`Condition.lower` gives lines that run a command once if the condition holds, and not at all if it
does not.  A disjunction raises a flag for each of its children and tests it at the end.  A
conjunction tests its first child into a flag, and the others in a list of their own that runs only
under the flag: no child is tested after one that fails.
-/

namespace Packwright.Condition

open Gen

mutual

/-- The lines that run a command if the condition holds. -/
def lower : Condition → (run : String) → Gen (List String)
  | leaf negated (.constant value), run => return if value = negated then [] else [run]
  | leaf negated predicate, run => return [Line.guard negated predicate run]
  | all negated children, run => lowerAll negated children run
  | any negated children, run =>
    if children.isEmpty then return if negated then [run] else []
    else do
      let flag ← temp "or"
      let tests ← lowerEach children (Line.set flag 1)
      let amount := if negated then 0 else 1
      return Line.set flag 0 :: tests ++ [Line.guardAmount false flag amount run]

/-- The lines that run a command once for every condition that holds. -/
def lowerEach : List Condition → (run : String) → Gen (List String)
  | [], _ => return []
  | c :: cs, run => return (← lower c run) ++ (← lowerEach cs run)

/-- The lines that run a command if all conditions hold or, under a negation, if one of them does
not. -/
def lowerAll (negated : Bool) : List Condition → (run : String) → Gen (List String)
  | [], run => return if negated then [] else [run]
  | c :: cs, run => do
    let flag ← temp "and"
    let first ← lower c (Line.set flag 1)
    let tested := Line.set flag 0 :: first
    if cs.isEmpty then
      return tested ++ [Line.guardAmount false flag (if negated then 0 else 1) run]
    else
      let rest ← lowerAll negated cs run
      let failed := if negated then [Line.guardAmount false flag 0 run] else []
      if rest.isEmpty then return tested ++ failed
      else
        let id ← synthesize "and" rest
        return tested ++ failed ++ [Line.guardAmount false flag 1 (Line.call id)]

end

end Packwright.Condition
