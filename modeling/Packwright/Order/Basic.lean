import Packwright.Order.Words
import Packwright.Target.Score
import Packwright.Target.Selector

/-!
# Orders

An order is what a command tells the machine to do.  `Order.ofText` reads a command.  What is wrong
with a command is itself an order, since a guard in front of it can keep it from being carried out.
-/

namespace Packwright

/-- How an amount changes a score. -/
inductive Change where
  | set | add | remove
  deriving DecidableEq, Repr

/-- The change with a given word. -/
def Change.ofText? : String → Option Change
  | "set" => some set
  | "add" => some add
  | "remove" => some remove
  | _ => none

/-- How a score changes another. -/
inductive Combination where
  | assign | add | sub | mul | div | mod | min | max | swap
  deriving DecidableEq, Repr

/-- The combination with a given sign. -/
def Combination.ofText? : String → Option Combination
  | "=" => some assign
  | "+=" => some add
  | "-=" => some sub
  | "*=" => some mul
  | "/=" => some div
  | "%=" => some mod
  | "<" => some min
  | ">" => some max
  | "><" => some swap
  | _ => none

/-- The range with a given word: two bounds around `..`, each of which can be absent, or one
amount. -/
def Range.ofText? (s : String) : Option Range :=
  match Text.splitOnce ['.', '.'] s.toList with
  | some (min, max) =>
    let bound (cs : List Char) : Option (Option Amount) :=
      if cs.isEmpty then some none else (Word.parse? .int cs).map some
    match bound min, bound max with
    | some least, some most => some ⟨least, most⟩
    | _, _ => none
  | none => (Word.parse? .int s.toList).map .exactly

/-- What a guard tests. -/
inductive Test where
  | within (score : Score) (range : Range)
  | compare (left : Score) (comparison : Comparison) (right : Score)
  /-- A question that is answered by its text. -/
  | ask
  deriving DecidableEq, Repr

/-- The test at the beginning of some words, and how many words it takes. -/
def Test.read? : List String → Option (Test × Nat)
  | "score" :: entry :: objective :: word :: next :: rest =>
    if word = "matches" then
      (Range.ofText? next).map fun range => (within ⟨entry, objective⟩ range, 5)
    else
      match rest with
      | other :: _ =>
        (Comparison.ofText? word).map fun c => (compare ⟨entry, objective⟩ c ⟨next, other⟩, 6)
      | [] => none
  | "entity" :: _ :: _ => some (ask, 2)
  | "data" :: "entity" :: _ :: _ :: _ => some (ask, 4)
  | _ => none

/-- What a command tells the machine to do. -/
inductive Order where
  /-- Nothing that the machine keeps. -/
  | nothing
  | adjust (change : Change) (score : Score) (amount : Amount)
  | reset (score : Score)
  | combine (target : Score) (combination : Combination) (source : Score)
  | call (id : ResourceId)
  | leave
  /-- Goes on if the test has the expected outcome; `text` is what the test is counted by. -/
  | guard (expected : Bool) (test : Test) (text : String) (next : Order)
  /-- Puts an answer to a question about game data into a score. -/
  | fetch (target : Score) (question : String)
  /-- Carries out another command. -/
  | run (next : Order)
  /-- A command that is noted and has no other effect. -/
  | print (line : String)
  /-- A command that cannot be carried out. -/
  | malformed (line : String)
  deriving DecidableEq, Repr

namespace Order

/-- The words joined to a text. -/
def join (words : List String) : String := " ".intercalate words

/-- The order of a scoreboard command about players. -/
def readPlayers (line : String) : List String → Order
  | ["reset", entry, objective] => reset ⟨entry, objective⟩
  | [word, entry, objective, value] =>
    match Change.ofText? word with
    | none => print line
    | some change =>
      match Word.parse? .int value.toList with
      | some amount => adjust change ⟨entry, objective⟩ amount
      | none => malformed line
  | ["operation", entry, objective, sign, source, sourceObjective] =>
    match Combination.ofText? sign with
    | some c => combine ⟨entry, objective⟩ c ⟨source, sourceObjective⟩
    | none => malformed line
  | _ => print line

mutual

/-- The order of a command with the given words; `line` is its text. -/
def read (line : String) (words : List String) : Order :=
  match words with
  | "scoreboard" :: "objectives" :: _ => nothing
  | "scoreboard" :: "players" :: rest => readPlayers line rest
  | ["function", id] => call (.ofText id)
  | "return" :: _ => leave
  | "execute" :: rest => readChain line none rest
  | _ => print line
termination_by words.length

/-- The order of the clauses behind `execute`; `target` is where an answer goes. -/
def readChain (line : String) (target : Option Score) (words : List String) : Order :=
  match words with
  | [] => malformed line
  | word :: rest =>
    if word = "if" || word = "unless" then
      match Test.read? rest with
      | none => malformed line
      | some (test, used) =>
        guard (word = "if") test (join (rest.take used)) (readChain line target (rest.drop used))
    else if word = "as" || word = "at" then readChain line target (rest.drop 1)
    else if word = "store" then
      match rest with
      | "result" :: "score" :: entry :: objective :: rest =>
        readChain line (some ⟨entry, objective⟩) rest
      | _ => malformed line
    else if word = "run" then
      let command := join rest
      match target with
      | none => run (read command rest)
      | some score =>
        match Text.after? "data get ".toList command.toList with
        | some question => fetch score (String.ofList question)
        | none => malformed line
    else malformed line
termination_by words.length
decreasing_by all_goals simp +arith

end

/-- The order of a command. -/
def ofText (line : String) : Order := read line (Words.ofText line)

end Order

end Packwright
