import Packwright.Target.Score
import Packwright.Target.Selector

/-!
# Conditions

A condition is a tree of conjunctions and disjunctions over predicates, each of which a command can
test.  Negation is a flag on every node.
-/

namespace Packwright

/-- What one guard of a command tests. -/
inductive Predicate where
  | constant (value : Bool)
  | within (score : Score) (range : Range)
  | compare (left : Score) (comparison : Comparison) (right : Score)
  | entity (selector : Selector)
  | data (path : DataPath)
  deriving DecidableEq, Repr

/-- The words of a predicate in a command. -/
def Predicate.text : Predicate → String
  | .constant b => if b then "true" else "false"
  | .within score range => "score " ++ score.text ++ " matches " ++ range.text
  | .compare left comparison right =>
    "score " ++ left.text ++ " " ++ comparison.text ++ " " ++ right.text
  | .entity selector => "entity " ++ selector.text
  | .data path => "data " ++ path.text

/-- A condition on the state of the game. -/
inductive Condition where
  | leaf (negated : Bool) (predicate : Predicate)
  | all (negated : Bool) (children : List Condition)
  | any (negated : Bool) (children : List Condition)
  deriving Repr

namespace Condition

/-- The condition that always or never holds. -/
def constant (value : Bool) : Condition := leaf false (.constant value)

/-- The opposite of a condition. -/
def negate : Condition → Condition
  | leaf negated p => leaf (!negated) p
  | all negated cs => all (!negated) cs
  | any negated cs => any (!negated) cs

/-- The children of a conjunction without negation, else the condition itself. -/
def conjuncts : Condition → List Condition
  | all false cs => cs
  | c => [c]

/-- The children of a disjunction without negation, else the condition itself. -/
def disjuncts : Condition → List Condition
  | any false cs => cs
  | c => [c]

/-- Both conditions. -/
def and (a b : Condition) : Condition := all false (a.conjuncts ++ b.conjuncts)

/-- One of the conditions, or both. -/
def or (a b : Condition) : Condition := any false (a.disjuncts ++ b.disjuncts)

mutual

/-- The text of a condition in messages and values. -/
def text : Condition → String
  | leaf negated p => (if negated then "!" else "") ++ p.text
  | all negated cs => (if negated then "!" else "") ++ "(" ++ " && ".intercalate (texts cs) ++ ")"
  | any negated cs => (if negated then "!" else "") ++ "(" ++ " || ".intercalate (texts cs) ++ ")"

/-- The texts of several conditions. -/
def texts : List Condition → List String
  | [] => []
  | c :: cs => text c :: texts cs

end

mutual

/-- Whether two conditions are the same tree. -/
def same : Condition → Condition → Bool
  | leaf m p, leaf n q => m = n && p = q
  | all m cs, all n ds => m = n && sameAll cs ds
  | any m cs, any n ds => m = n && sameAll cs ds
  | _, _ => false

/-- Whether two lists of conditions are the same. -/
def sameAll : List Condition → List Condition → Bool
  | [], [] => true
  | c :: cs, d :: ds => same c d && sameAll cs ds
  | _, _ => false

end

end Condition

end Packwright
