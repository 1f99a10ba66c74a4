import Packwright.Condition.Basic

/-!
# Lines

The texts of the commands that generation writes.
-/

namespace Packwright.Line

/-- Sets a score to an amount. -/
def set (score : Score) (n : Amount) : String :=
  "scoreboard players set " ++ score.text ++ " " ++ n.text

/-- Adds an amount to a score. -/
def add (score : Score) (n : Amount) : String :=
  "scoreboard players add " ++ score.text ++ " " ++ n.text

/-- Takes an amount from a score. -/
def remove (score : Score) (n : Amount) : String :=
  "scoreboard players remove " ++ score.text ++ " " ++ n.text

/-- Forgets a score. -/
def reset (score : Score) : String := "scoreboard players reset " ++ score.text

/-- Combines one score with another; `sign` says how. -/
def operation (target : Score) (sign : String) (source : Score) : String :=
  "scoreboard players operation " ++ target.text ++ " " ++ sign ++ " " ++ source.text

/-- Makes an objective. -/
def addObjective (objective : String) : String :=
  "scoreboard objectives add " ++ objective ++ " dummy"

/-- Calls a command list. -/
def call (id : ResourceId) : String := "function " ++ id.text

/-- Leaves the command list. -/
def leave : String := "return 0"

/-- Runs a command if a predicate holds, or if it does not hold. -/
def guard (negated : Bool) (predicate : Predicate) (run : String) : String :=
  "execute " ++ (if negated then "unless" else "if") ++ " " ++ predicate.text ++ " run " ++ run

/-- Runs a command if a score is an amount, or if it is not. -/
def guardAmount (negated : Bool) (score : Score) (n : Amount) (run : String) : String :=
  "execute " ++ (if negated then "unless" else "if") ++ " score " ++ score.text ++ " matches " ++
    n.text ++ " run " ++ run

/-- Runs a command in a context: as or at the entities of a selector. -/
def within (word : String) (selector : Selector) (run : String) : String :=
  "execute " ++ word ++ " " ++ selector.text ++ " run " ++ run

/-- Reads game data into a score. -/
def fetch (target : Score) (path : DataPath) : String :=
  "execute store result score " ++ target.text ++ " run data get " ++ path.text

end Packwright.Line
