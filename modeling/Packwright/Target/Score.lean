import Packwright.Word

/-!
# Scores

A score is a slot of the scoreboard, named by an entry and an objective.  Ranges and comparisons are
what the commands can test of the amounts in such slots.
-/

namespace Packwright

/-- A slot of the scoreboard. -/
structure Score where
  entry : String
  objective : String
  deriving DecidableEq, Repr, Inhabited

/-- The two words of a score in a command. -/
def Score.text (s : Score) : String := s.entry ++ " " ++ s.objective

/-- A range of amounts; the bounds belong to it. -/
structure Range where
  min : Option Amount
  max : Option Amount
  deriving DecidableEq, Repr

namespace Range

/-- The range of one amount. -/
def exactly (n : Amount) : Range := ⟨some n, some n⟩

/-- Whether an amount lies in the range. -/
def contains (r : Range) (n : Amount) : Bool :=
  r.min.all (fun least => least.toInt ≤ n.toInt) && r.max.all (fun most => n.toInt ≤ most.toInt)

/-- The word of a range in a command. -/
def text (r : Range) : String :=
  (r.min.map Word.text).getD "" ++ ".." ++ (r.max.map Word.text).getD ""

end Range

/-- The comparisons that a command can make between two scores. -/
inductive Comparison where
  | lt | le | eq | ge | gt
  deriving DecidableEq, Repr

namespace Comparison

/-- The word of a comparison in a command. -/
def text : Comparison → String
  | lt => "<" | le => "<=" | eq => "=" | ge => ">=" | gt => ">"

/-- Whether the comparison holds between two amounts. -/
def holds (c : Comparison) (a b : Amount) : Bool :=
  match c with
  | lt => a.toInt < b.toInt
  | le => a.toInt ≤ b.toInt
  | eq => a.toInt = b.toInt
  | ge => b.toInt ≤ a.toInt
  | gt => b.toInt < a.toInt

/-- The comparison with a given word. -/
def ofText? (s : String) : Option Comparison :=
  [lt, le, eq, ge, gt].find? (·.text = s)

end Comparison

end Packwright
