import Packwright.Proofs.Lines
import Packwright.Proofs.Running

/-!
# Guards whose tests pass

A command behind clauses whose tests pass is carried out as it is without them.  The clauses count
their tests, and the command behind them is counted once more, so that the budget may be exhausted
where it is not without them.  Apart from that, both runs go the same way, call by call.

The command behind the clauses is not the text that stands there but its words, joined by one
blank and split again.  That shows in one place only: a command that the machine does not know is
noted as it is written, and behind clauses as its runs between blanks.

* `Words.Spells`: a text in front of another adds these words and nothing else.
* `Clause`: what stands in front of a command.
* `Run.Shadows`: two runs go the same way, unless the second one exhausts the budget.
* `Order.read_cases`: what the text of a command matters beside its words.
* `guarded_command`: a command behind clauses whose tests pass.
-/

namespace Packwright

open Words

/-- The text adds the words in front of any text. -/
def Words.Spells (head : String) (ws : List String) : Prop :=
  ∀ rest, ofText (head ++ rest) = ws ++ ofText rest

theorem Words.spells_join {ws : List String} (hne : ws ≠ []) (h : ∀ w ∈ ws, IsWord w) :
    Spells (Order.join ws ++ " ") ws :=
  fun rest => ofText_join_append hne h rest

/-! ## Clauses -/

/-- What can stand in front of a command. -/
inductive Clause where
  /-- A test by its words, and the outcome with which the command is carried out. -/
  | check (expected : Bool) (test : List String)
  /-- An entity as which the command is carried out.  The machine keeps none. -/
  | as (operand : String)
  /-- An entity where the command is carried out. -/
  | at (operand : String)

namespace Clause

/-- The words of a clause. -/
def words : Clause → List String
  | .check expected ws => Order.keyword (!expected) :: ws
  | .as operand => ["as", operand]
  | .at operand => ["at", operand]

/-- Whether a clause lets its command be carried out. -/
def passes (w : World) : Clause → Bool
  | .check expected ws =>
    match Test.read? ws with
    | some (t, used) => used = ws.length && w.outcome (Order.join ws) t = expected
    | none => false
  | .as _ | .at _ => true

/-- The order of a command behind a clause. -/
def guard : Clause → Order → Order
  | .check expected ws, o =>
    match Test.read? ws with
    | some (t, _) => .guard expected t (Order.join ws) o
    | none => o
  | .as _, o | .at _, o => o

theorem passes_check {w : World} {expected : Bool} {ws : List String}
    (h : passes w (.check expected ws) = true) :
    ∃ t, Test.read? ws = some (t, ws.length) ∧ w.outcome (Order.join ws) t = expected := by
  simp only [passes] at h
  split at h
  · rename_i t used hread
    simp only [Bool.and_eq_true, decide_eq_true_eq] at h
    exact ⟨t, h.1 ▸ hread, h.2⟩
  · cases h

theorem passes_congr {w v : World} (h : World.Agree ∅ w v) (c : Clause) :
    c.passes v = c.passes w := by
  cases c with
  | check expected ws =>
    simp only [passes]
    split
    · rw [h.outcome (fun s _ => Set.notMem_empty s)]
    · rfl
  | as _ => rfl
  | «at» _ => rfl

end Clause

/-- A test is read as it is, whatever stands behind it. -/
theorem Test.read?_append {ws : List String} {r : Test × Nat} (h : Test.read? ws = some r)
    (rest : List String) : Test.read? (ws ++ rest) = some r := by
  unfold Test.read? at h
  split at h
  · rename_i entry objective word next more
    show (if word = "matches" then _ else _) = _
    split at h
    · rename_i hword
      rw [if_pos hword]
      exact h
    · rename_i hword
      rw [if_neg hword]
      split at h
      · exact h
      · cases h
  · exact h
  · exact h
  · cases h

/-- A clause is read as its guard in front of what stands behind it. -/
theorem Order.readChain_clause {w : World} {c : Clause} (h : c.passes w = true) (line : String)
    (rest : List String) :
    readChain line none (c.words ++ rest) = c.guard (readChain line none rest) := by
  cases c with
  | check expected ws =>
    obtain ⟨t, hread, -⟩ := Clause.passes_check h
    have hkey : (keyword (!expected) = "if") = expected := by cases expected <;> decide
    have hif : (keyword (!expected) = "if" || keyword (!expected) = "unless") = true := by
      cases expected <;> decide
    rw [Clause.words, List.cons_append, readChain.eq_def]
    simp only [hif, if_true, Test.read?_append hread, List.take_left, List.drop_left]
    simp only [hkey, Bool.decide_eq_true, Clause.guard, hread]
  | as operand =>
    rw [Clause.words, List.cons_append, readChain.eq_def]
    simp [Clause.guard]
  | «at» operand =>
    rw [Clause.words, List.cons_append, readChain.eq_def]
    simp [Clause.guard]

/-- **The order of a command behind clauses.** -/
theorem Order.ofText_clauses {w : World} {chain : List Clause}
    (hchain : ∀ c ∈ chain, c.passes w = true) {head : String}
    (hhead : Spells head ("execute" :: chain.flatMap Clause.words ++ ["run"])) (command : String) :
    ofText (head ++ command) = chain.foldr Clause.guard (.run (passed command)) := by
  have hclauses : ∀ line, readChain line none
      (chain.flatMap Clause.words ++ "run" :: Words.ofText command) =
        chain.foldr Clause.guard (.run (passed command)) := by
    intro line
    clear hhead
    induction chain with
    | nil => exact readChain_run line command 0
    | cons c chain ih =>
      obtain ⟨hc, hrest⟩ := List.forall_mem_cons.mp hchain
      rw [List.flatMap_cons, List.append_assoc, readChain_clause hc, ih hrest, List.foldr_cons]
  rw [ofText, hhead, List.cons_append, List.cons_append, List.append_assoc, List.singleton_append,
    read, hclauses]

/-! ## Runs in the shadow of others -/

namespace Run

theorem count_exhausted {w : World} (h : ¬ w.executed < budget) :
    count w = .error .budgetExhausted w.counted := by
  show (if w.counted.executed > budget then throw Fault.budgetExhausted else pure () : Run Unit)
    w.counted = _
  rw [if_pos (by rw [World.executed_counted]; omega)]
  rfl

/-- The results of two runs are the same, unless the second one exhausts the budget.  The second one
has counted more commands. -/
inductive Alike {α : Type} :
    EStateM.Result Fault World α → EStateM.Result Fault World α → Prop
  | ok (a : α) {w v : World} (covers : World.Covers ∅ v w) : Alike (.ok a w) (.ok a v)
  | fault (e e' : Fault) (w v : World) : Alike (.error e w) (.error e' v)
  | exhausted (r : EStateM.Result Fault World α) (v : World) :
    Alike r (.error .budgetExhausted v)

/-- From worlds of which the second one has counted more commands, the runs have the same result,
unless the second one exhausts the budget. -/
def Shadows {α : Type} (first second : Run α) : Prop :=
  ∀ w v, World.Covers ∅ v w → Alike (first w) (second v)

namespace Shadows

variable {α β : Type} {p q : Run α} {f g : α → Run β}

protected theorem pure (a : α) : Shadows (pure a) (pure a) := fun _ _ h => .ok a h

theorem throw (e e' : Fault) : Shadows (throw e : Run α) (throw e') := fun _ _ _ => .fault _ _ _ _

protected theorem bind (hp : Shadows p q) (hf : ∀ a, Shadows (f a) (g a)) :
    Shadows (p >>= f) (q >>= g) := by
  intro w v h
  show Alike (EStateM.bind p f w) (EStateM.bind q g v)
  unfold EStateM.bind
  have hrun := hp w v h
  generalize p w = r at hrun ⊢
  generalize q v = r' at hrun ⊢
  cases hrun with
  | ok a hcovers => exact hf a _ _ hcovers
  | fault e e' w v => exact .fault _ _ _ _
  | exhausted r v => exact .exhausted _ _

theorem modify {change : World → World}
    (h : ∀ w v, World.Covers ∅ v w → World.Covers ∅ (change v) (change w)) :
    Shadows (modify change) (modify change) := fun w v hcovers => .ok () (h w v hcovers)

theorem count : Shadows count count := by
  intro w v h
  have hagree : World.Covers ∅ v.counted w.counted :=
    ⟨⟨h.score, h.answers, h.data, h.output⟩, Nat.succ_le_succ h.executed⟩
  by_cases hv : v.executed < budget
  · have hw : w.executed < budget := lt_of_le_of_lt h.executed hv
    rw [count_ok.mpr ⟨hw, rfl⟩, count_ok.mpr ⟨hv, rfl⟩]
    exact .ok () hagree
  · rw [count_exhausted hv]
    exact .exhausted _ _

theorem test (t : Test) (text : String) : Shadows (test t text) (test t text) := by
  intro w v h
  have houtcome : w.outcome text t = v.outcome text t :=
    h.outcome (fun s _ => Set.notMem_empty s) text
  show Alike (.ok (w.outcome text t) (w.evaluated text)) (.ok (v.outcome text t) (v.evaluated text))
  rw [houtcome]
  exact .ok _ ⟨⟨h.score, h.answers, h.data, h.output⟩, h.executed⟩

end Shadows

end Run

/-- The orders are the same, but for the lines by which they say what is wrong. -/
inductive Order.Twin : Order → Order → Prop
  | refl (o : Order) : Twin o o
  | malformed (line line' : String) : Twin (.malformed line) (.malformed line')
  | guard (expected : Bool) (t : Test) (text : String) {o o' : Order} :
    Twin o o' → Twin (.guard expected t text o) (.guard expected t text o')

namespace Run

variable {callee : ResourceId → Run Unit}

/-- **An order** goes the same way, if the lists that it calls do. -/
theorem shadows_order (hcallee : ∀ id, Shadows (callee id) (callee id)) :
    ∀ o : Order, Shadows (order callee o) (order callee o)
  | .nothing | .leave => .pure _
  | .adjust change s n => by
    refine .bind (.modify fun w v h => ⟨?_, h.executed⟩) fun _ => .pure _
    have hamount : w.amount s = v.amount s := h.amount (Set.notMem_empty s)
    unfold World.adjust
    rw [hamount]
    exact h.setScore_setScore s _
  | .reset s =>
    .bind (.modify fun _ _ h => ⟨h.resetScore_resetScore s, h.executed⟩) fun _ => .pure _
  | .combine s c t =>
    .bind (.modify fun _ _ h => covers_combine h (Set.notMem_empty s) (Set.notMem_empty t) c)
      fun _ => .pure _
  | .call id => .bind (hcallee id) fun _ => .pure _
  | .guard expected t text o => by
    refine .bind (.test t text) fun outcome => ?_
    split
    · exact shadows_order hcallee o
    · exact .pure _
  | .fetch s question => by
    refine .bind (.modify fun w v h => ⟨?_, h.executed⟩) fun _ => .pure _
    rw [h.data]
    exact h.setScore_setScore s _
  | .run o => .bind .count fun _ => shadows_order hcallee o
  | .print line => by
    refine .bind (.modify fun w v h => ⟨⟨h.score, h.answers, h.data, ?_⟩, h.executed⟩)
      fun _ => .pure _
    show w.output.push line = v.output.push line
    rw [h.output]
  | .malformed line => .throw _ _

theorem shadows_commands (hcallee : ∀ id, Shadows (callee id) (callee id)) :
    ∀ os : List Order, Shadows (commands callee os) (commands callee os)
  | [] => .pure _
  | o :: os => by
    refine .bind (.bind .count fun _ => shadows_order hcallee o) fun flow => ?_
    cases flow with
    | leave => exact .pure _
    | next => exact shadows_commands hcallee os

/-- **A call** goes the same way, whatever has been counted in front of it. -/
theorem shadows_function (p : Program) : ∀ (depth : Nat) (id : ResourceId),
    Shadows (function p depth id) (function p depth id)
  | 0, _ => .throw _ _
  | depth + 1, id => by
    rw [function]
    cases p.get? id with
    | none => exact .throw _ _
    | some os => exact shadows_commands (shadows_function p depth) os

theorem shadows_twin (hcallee : ∀ id, Shadows (callee id) (callee id)) {o o' : Order}
    (h : Order.Twin o o') : Shadows (order callee o) (order callee o') := by
  induction h with
  | refl o => exact shadows_order hcallee o
  | malformed line line' => exact .throw _ _
  | guard expected t text _ ih =>
    refine .bind (.test t text) fun outcome => ?_
    split
    · exact ih
    · exact .pure _

end Run

/-! ## The text beside the words -/

namespace Order

/-- What a chain orders depends on its words; the line says what is wrong. -/
theorem readChain_twin (line line' : String) : ∀ (n : Nat) (target : Option Score)
    (ws : List String), ws.length ≤ n →
      Twin (readChain line target ws) (readChain line' target ws) ∧
        ∀ shown, readChain line target ws ≠ print shown
  | n, target, [], _ => by
    rw [readChain.eq_def, readChain.eq_def]
    exact ⟨.malformed _ _, by simp⟩
  | n + 1, target, word :: rest, hn => by
    have hlength : rest.length ≤ n := Nat.le_of_succ_le_succ hn
    have hshort : ∀ k, (rest.drop k).length ≤ n := by
      intro k
      rw [List.length_drop]
      omega
    rw [readChain.eq_def, readChain.eq_def line']
    dsimp only
    split
    · cases Test.read? rest with
      | none => exact ⟨.malformed _ _, by simp⟩
      | some r =>
        exact ⟨.guard _ _ _ (readChain_twin line line' n target _ (hshort r.2)).1, by simp⟩
    · split
      · exact readChain_twin line line' n target _ (hshort 1)
      · split
        · split
          · rename_i entry objective rest
            simp only [List.length_cons] at hlength
            exact readChain_twin line line' n _ rest (by omega)
          · exact ⟨.malformed _ _, by simp⟩
        · split
          · cases target with
            | none => exact ⟨.refl _, by simp⟩
            | some score =>
              dsimp only
              split
              · exact ⟨.refl _, by simp⟩
              · exact ⟨.malformed _ _, by simp⟩
          · exact ⟨.malformed _ _, by simp⟩

theorem readPlayers_cases (line line' : String) (ws : List String) :
    (readPlayers line ws = print line ∧ readPlayers line' ws = print line') ∨
      (Twin (readPlayers line ws) (readPlayers line' ws) ∧
        ∀ shown, readPlayers line ws ≠ print shown) := by
  unfold readPlayers
  split
  · exact .inr ⟨.refl _, by simp⟩
  · rename_i word entry objective value
    cases Change.ofText? word with
    | none => exact .inl ⟨rfl, rfl⟩
    | some change =>
      cases Word.parse? .int value.toList with
      | none => exact .inr ⟨.malformed _ _, by simp⟩
      | some n => exact .inr ⟨.refl _, by simp⟩
  · rename_i entry objective sign source sourceObjective
    cases Combination.ofText? sign with
    | none => exact .inr ⟨.malformed _ _, by simp⟩
    | some c => exact .inr ⟨.refl _, by simp⟩
  · exact .inl ⟨rfl, rfl⟩

/-- **What the text of a command matters beside its words**: a command that the machine does not
know is noted by its text, and apart from that the text says what is wrong. -/
theorem read_cases (line line' : String) (ws : List String) :
    (read line ws = print line ∧ read line' ws = print line') ∨
      (Twin (read line ws) (read line' ws) ∧ ∀ shown, read line ws ≠ print shown) := by
  rw [read.eq_def, read.eq_def line']
  split
  · exact .inr ⟨.refl _, by simp⟩
  · exact readPlayers_cases line line' _
  · exact .inr ⟨.refl _, by simp⟩
  · exact .inr ⟨.refl _, by simp⟩
  · exact .inr (readChain_twin line line' _ none _ le_rfl)
  · exact .inl ⟨rfl, rfl⟩

end Order

/-! ## A command behind clauses -/

/-- Carries out a line of a program, with `depth` calls inside one another at most. -/
def Run.line (p : Program) (depth : Nat) (text : String) : Run Flow :=
  Run.command (Run.function p depth) (Order.ofText text)

namespace Run

variable {callee : ResourceId → Run Unit} {w : World}

theorem command_of_lt (h : w.executed < budget) (o : Order) :
    command callee o w = order callee o w.counted := by
  show EStateM.bind count (fun _ => order callee o) w = _
  unfold EStateM.bind
  rw [count_ok.mpr ⟨h, rfl⟩]

theorem command_of_not_lt (h : ¬ w.executed < budget) (o : Order) :
    command callee o w = .error .budgetExhausted w.counted := by
  show EStateM.bind count (fun _ => order callee o) w = _
  unfold EStateM.bind
  rw [count_exhausted h]

theorem executed_lt_of_not_exhausted {o : Order}
    (h : ∀ v, command callee o w ≠ .error .budgetExhausted v) : w.executed < budget := by
  by_contra hw
  exact h w.counted (command_of_not_lt hw o)

/-- Clauses that let their command be carried out do nothing but count. -/
theorem order_clauses (callee : ResourceId → Run Unit) {chain : List Clause}
    (hchain : ∀ c ∈ chain, c.passes w = true) :
    ∃ v, World.Agree ∅ w v ∧ v.executed = w.executed ∧
      ∀ o, order callee (chain.foldr Clause.guard o) w = order callee o v := by
  induction chain generalizing w with
  | nil => exact ⟨w, .refl ∅ w, rfl, fun _ => rfl⟩
  | cons c chain ih =>
    obtain ⟨hc, hrest⟩ := List.forall_mem_cons.mp hchain
    cases c with
    | check expected ws =>
      obtain ⟨t, hread, houtcome⟩ := Clause.passes_check hc
      have hevaluated := World.Agree.evaluated ∅ w (Order.join ws)
      obtain ⟨v, hagree, hexecuted, hrun⟩ := ih fun d hd =>
        (Clause.passes_congr hevaluated d).trans (hrest d hd)
      refine ⟨v, hevaluated.trans hagree, hexecuted, fun o => ?_⟩
      rw [← hrun o, List.foldr_cons, Clause.guard]
      simp only [hread]
      rw [order_guard, if_pos houtcome]
    | as operand => exact ih hrest
    | «at» operand => exact ih hrest

end Run

section Guarded

variable {p : Program} {depth : Nat} {w : World} {chain : List Clause} {head : String}
  (hhead : Spells head ("execute" :: chain.flatMap Clause.words ++ ["run"]))
  (hchain : ∀ c ∈ chain, c.passes w = true) (command : String)
  (hbudget : ∀ v, Run.line p depth (head ++ command) w ≠ .error .budgetExhausted v)

include hhead hchain hbudget

/-- Behind the clauses, the words of the command are carried out, in a world in which one command
more is counted. -/
theorem line_clauses : ∃ v, World.Covers ∅ v w.counted ∧
    Run.line p depth command w =
      Run.order (Run.function p depth) (Order.ofText command) w.counted ∧
    Run.line p depth (head ++ command) w =
      Run.order (Run.function p depth) (Order.passed command) v := by
  unfold Run.line at hbudget ⊢
  have hlt := Run.executed_lt_of_not_exhausted hbudget
  have hcounted := fun c hc => (Clause.passes_congr (.counted ∅ w) c).trans (hchain c hc)
  obtain ⟨v, hagree, hexecuted, hclauses⟩ :=
    Run.order_clauses (Run.function p depth) hcounted
  have hrun : Run.command (Run.function p depth) (Order.ofText (head ++ command)) w =
      Run.command (Run.function p depth) (Order.passed command) v := by
    rw [Order.ofText_clauses hchain hhead, Run.command_of_lt hlt, hclauses, Run.order_run]
  rw [hrun] at hbudget ⊢
  refine ⟨v.counted, ?_, Run.command_of_lt hlt _,
    Run.command_of_lt (Run.executed_lt_of_not_exhausted hbudget) _⟩
  have hcovers := hagree.trans (.counted ∅ v)
  refine ⟨hcovers.symm, ?_⟩
  rw [World.executed_counted v, hexecuted]
  exact Nat.le_succ _

/-- **Guards are transparent.**  A command behind clauses whose tests pass, away from the end of the
budget, succeeds if and only if it does without them.  Then it leaves the list or goes on as it does
without them, with the same scores and the same output; but a command that the machine only notes is
noted as its runs between blanks, joined by one blank, if none of them begins with a closing bracket
or brace. -/
theorem guarded_command :
    Run.succeeds (Run.line p depth (head ++ command)) w =
      Run.succeeds (Run.line p depth command) w ∧
    ∀ f g u v, Run.line p depth command w = .ok f u →
      Run.line p depth (head ++ command) w = .ok g v →
        g = f ∧ (∀ s, v.score? s = u.score? s) ∧
        (Order.ofText command ≠ .print command → v.output = u.output) ∧
        (Order.ofText command = .print command → u.output = w.output.push command ∧
          ∃ line, v.output = w.output.push line ∧
            (NoStray command → line = Order.join (fields command))) := by
  obtain ⟨v, hcovers, hplain, hguarded⟩ := line_clauses hhead hchain command hbudget
  unfold Run.succeeds
  rw [hplain, hguarded]
  rw [hguarded] at hbudget
  rcases Order.read_cases command (Order.join (Words.ofText command)) (Words.ofText command) with
    ⟨hread, hpassed⟩ | ⟨htwin, hnot⟩
  · -- both commands are noted, each by its own text
    rw [Order.passed_eq_read, Order.ofText, hread, hpassed]
    refine ⟨rfl, ?_⟩
    intro f g u u' hu hu'
    cases hu
    cases hu'
    refine ⟨rfl, fun s => (hcovers.score s (Set.notMem_empty s)).symm, fun hne => absurd rfl hne,
      fun _ => ⟨rfl, Order.join (Words.ofText command), ?_, fun h => by rw [ofText_eq_fields h]⟩⟩
    show v.output.push _ = w.output.push _
    rw [← hcovers.output]
    rfl
  · have hshadows : Run.Alike
        (Run.order (Run.function p depth) (Order.ofText command) w.counted)
        (Run.order (Run.function p depth) (Order.passed command) v) := by
      rw [Order.passed_eq_read, Order.ofText]
      exact Run.shadows_twin (Run.shadows_function p depth) htwin _ _ hcovers
    generalize Run.order _ (Order.ofText command) w.counted = plain at hshadows ⊢
    generalize Run.order _ (Order.passed command) v = guarded at hshadows hbudget ⊢
    cases hshadows with
    | ok a h =>
      refine ⟨rfl, ?_⟩
      intro f g u u' hu hu'
      cases hu
      cases hu'
      exact ⟨rfl, fun s => (h.score s (Set.notMem_empty s)).symm, fun _ => h.output.symm,
        fun hprint => absurd hprint (hnot command)⟩
    | fault e e' u u' =>
      refine ⟨rfl, ?_⟩
      intro f g u u' hu
      cases hu
    | exhausted r u => exact absurd rfl (hbudget u)

end Guarded

/-- A list that counts a score up and notes a command. -/
def counting : Program :=
  [(⟨"t", "up"⟩, ["scoreboard players add a o 2", "say  up"].map Order.ofText)]

/-- Two tests that pass, around an entity whose selector has a blank in it. -/
def passing : List Clause :=
  [.check true ["score", "a", "o", "matches", "1.."], .as "@e[type=cow, tag=b]",
    .check false ["entity", "@s"]]

theorem guarded_command_counting :
    let w : World := { scores := [(⟨"a", "o"⟩, 1)] }
    let head := "execute if score a o matches 1.. as @e[type=cow, tag=b] unless entity @s run "
    Spells head ("execute" :: passing.flatMap Clause.words ++ ["run"]) ∧
    (∀ c ∈ passing, c.passes w = true) ∧
    (∃ u v, Run.line counting 1 "function  t:up" w = .ok .next u ∧
      Run.line counting 1 (head ++ "function  t:up") w = .ok .next v ∧
      u.score? ⟨"a", "o"⟩ = some 3 ∧ v.score? ⟨"a", "o"⟩ = some 3 ∧ v.output = u.output) ∧
    ∃ u v, Run.line counting 1 "say  [a  b] c" w = .ok .next u ∧
      Run.line counting 1 (head ++ "say  [a  b] c") w = .ok .next v ∧
      u.output = #["say  [a  b] c"] ∧ v.output = #["say [a  b] c"] := by
  intro w head
  have hhead : Spells head ("execute" :: passing.flatMap Clause.words ++ ["run"]) := by
    have hjoin : head =
        Order.join ("execute" :: passing.flatMap Clause.words ++ ["run"]) ++ " " := by
      decide +kernel
    rw [hjoin]
    exact spells_join (by simp) (by decide +kernel)
  have hchain : ∀ c ∈ passing, c.passes w = true := by decide +kernel
  have hroom : ∀ command, Run.passes (Run.line counting 1 (head ++ command)) w = true →
      ∀ v, Run.line counting 1 (head ++ command) w ≠ .error .budgetExhausted v := by
    intro command hpasses v hv
    rw [Run.eq_after_of_passes hpasses] at hv
    cases hv
  have hcall : Run.passes (Run.line counting 1 (head ++ "function  t:up")) w = true := by
    decide +kernel
  have hnote : Run.passes (Run.line counting 1 (head ++ "say  [a  b] c")) w = true := by
    decide +kernel
  refine ⟨hhead, hchain, ?_, ?_⟩
  · have hplain := Run.eq_after_of_passes
      (show Run.passes (Run.line counting 1 "function  t:up") w = true by decide +kernel)
    have hguarded := Run.eq_after_of_passes hcall
    have hscore : (Run.after (Run.line counting 1 "function  t:up") w).score? ⟨"a", "o"⟩ =
        some 3 := by
      decide +kernel
    obtain ⟨-, hsame⟩ := guarded_command hhead hchain "function  t:up" (hroom _ hcall)
    obtain ⟨-, hscores, houtput, -⟩ := hsame _ _ _ _ hplain hguarded
    exact ⟨_, _, hplain, hguarded, hscore, (hscores _).trans hscore, houtput (by decide +kernel)⟩
  · have hplain := Run.eq_after_of_passes
      (show Run.passes (Run.line counting 1 "say  [a  b] c") w = true by decide +kernel)
    have hguarded := Run.eq_after_of_passes hnote
    obtain ⟨-, hsame⟩ := guarded_command hhead hchain "say  [a  b] c" (hroom _ hnote)
    obtain ⟨-, -, -, hnoted⟩ := hsame _ _ _ _ hplain hguarded
    obtain ⟨hu, line, hv, hline⟩ := hnoted (by decide +kernel)
    have hfields : Order.join (fields "say  [a  b] c") = "say [a  b] c" := by decide +kernel
    refine ⟨_, _, hplain, hguarded, hu, ?_⟩
    rw [hv, hline (by decide +kernel), hfields]
    rfl

/-- A noted command with two blanks in a row: behind a clause it is noted with one of them. -/
theorem guarded_command_loses_blank :
    Spells "execute as @s run " ("execute" :: [Clause.as "@s"].flatMap Clause.words ++ ["run"]) ∧
    ∃ u v, Run.line [] 1 "say a  b" { } = .ok .next u ∧
      Run.line [] 1 ("execute as @s run " ++ "say a  b") { } = .ok .next v ∧
      u.output = #["say a  b"] ∧ v.output = #["say a b"] := by
  have hspells : Spells (Order.join ["execute", "as", "@s", "run"] ++ " ")
      ["execute", "as", "@s", "run"] := spells_join (by simp) (by decide +kernel)
  refine ⟨hspells, _, _, Run.eq_after_of_passes (by decide +kernel),
    Run.eq_after_of_passes (by decide +kernel), by decide +kernel, by decide +kernel⟩

end Packwright
