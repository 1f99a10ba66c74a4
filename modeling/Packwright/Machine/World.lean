import Packwright.Order.Basic
import Packwright.Table

/-!
# The world of a machine

What commands read and change: the scoreboard, the answers that the world gives, and what has
happened.
-/

namespace Packwright

/-- The state of a machine. -/
structure World where
  scores : Table Score Amount := []
  /-- The answers to questions about entities and data, by their text. -/
  answers : Table String Bool := []
  /-- The game data that can be read, by its path. -/
  data : Table String Amount := []
  /-- How often each test was made, by its text. -/
  evaluations : Table String Nat := []
  /-- The commands that were noted. -/
  output : Array String := #[]
  /-- How many commands were carried out. -/
  executed : Nat := 0

namespace World

/-- The amount in a score. -/
def score? (w : World) (s : Score) : Option Amount := w.scores.get? s

/-- The amount in a score; one that is not set counts as zero. -/
def amount (w : World) (s : Score) : Amount := (w.score? s).getD 0

/-- The world with an amount in a score. -/
def setScore (w : World) (s : Score) (n : Amount) : World := { w with scores := w.scores.put s n }

/-- The world in which a score is not set. -/
def resetScore (w : World) (s : Score) : World := { w with scores := w.scores.erase s }

/-- The world that answers a question. -/
def setAnswer (w : World) (text : String) (truth : Bool) : World :=
  { w with answers := w.answers.put text truth }

/-- The world with game data under a path. -/
def setData (w : World) (path : String) (n : Amount) : World := { w with data := w.data.put path n }

/-- How often a test was made. -/
def evaluationsOf (w : World) (text : String) : Nat := (w.evaluations.get? text).getD 0

/-- The world in which a test was made once more. -/
def evaluated (w : World) (text : String) : World :=
  { w with evaluations := w.evaluations.put text (w.evaluationsOf text + 1) }

/-- The outcome of a test.  A score that is not set passes none. -/
def outcome (w : World) (text : String) : Test → Bool
  | .within s range => (w.score? s).any range.contains
  | .compare l c r =>
    match w.score? l, w.score? r with
    | some a, some b => c.holds a b
    | _, _ => false
  | .ask => (w.answers.get? text).getD false

/-- The world after an amount has changed a score. -/
def adjust (w : World) (change : Change) (s : Score) (n : Amount) : World :=
  w.setScore s
    (match change with
      | .set => n
      | .add => w.amount s + n
      | .remove => w.amount s - n)

end World

/-- The quotient of two amounts, rounded down; a zero divisor leaves the dividend. -/
def Amount.divide (a b : Amount) : Amount :=
  if b = 0 then a else BitVec.ofInt _ (a.toInt.fdiv b.toInt)

/-- The remainder of the quotient rounded down; a zero divisor leaves the dividend. -/
def Amount.remainder (a b : Amount) : Amount :=
  if b = 0 then a else BitVec.ofInt _ (a.toInt.fmod b.toInt)

/-- The amount that a score gets when another is combined with it. -/
def Combination.result (c : Combination) (a b : Amount) : Amount :=
  match c with
  | assign => b
  | add => a + b
  | sub => a - b
  | mul => a * b
  | div => Amount.divide a b
  | mod => Amount.remainder a b
  | min => if a.toInt ≤ b.toInt then a else b
  | max => if a.toInt ≤ b.toInt then b else a
  | swap => b

/-- The world after two scores have been combined. -/
def World.combine (w : World) (target : Score) (c : Combination) (source : Score) : World :=
  let a := w.amount target
  let b := w.amount source
  let w := if c = .swap then w.setScore source a else w
  w.setScore target (c.result a b)

end Packwright
