import Packwright.Proofs.Transparent
import Mathlib.Data.Prod.Lex

/-!
# Every run ends

A run, step by step: a machine calls a list, starts the commands of the list one after another,
carries each of them out, and goes back to the list that the call was in.  A step either counts a
command, and a world counts so many only, or comes nearer to the next count or to the end.

* `Machine.step`: one step; `Machine.Reaches`: a run, with the number of commands it starts.
* `leads_order`, `leads_commands`, `calls_function`: step by step, a machine does what `Run` does at
  once.
* `Activity.Moves`: what a step does to counts and depths.
* `Machine.potential_step`: what gets less with every step.
* `Activity.Moves.isNested`, `Activity.Moves.counts`: what one step keeps; `Machine.Reaches.nested`,
  `Machine.Reaches.counts`: what a run keeps.
* `runs_end`: all steps end, and how many commands and calls there are until then.
-/

namespace Packwright

open Run

/-- A command list that is being carried out, inside of as many calls, and what is left of it. -/
structure Body where
  depth : Nat
  rest : List Order

/-- What a machine does next. -/
inductive Activity where
  /-- Calls a list, inside of as many calls. -/
  | call (depth : Nat) (id : ResourceId)
  /-- Starts a command of a list that is inside of as many calls. -/
  | start (depth : Nat) (o : Order)
  /-- Carries out what the command says. -/
  | perform (depth : Nat) (o : Order)
  /-- Goes back to the innermost list. -/
  | back (flow : Flow)

/-- A machine in a run; the innermost list is the first one. -/
inductive Machine where
  | active (activity : Activity) (bodies : List Body) (w : World)
  | ended (fault : Option Fault) (w : World)

namespace Machine

def world : Machine → World
  | active _ _ w => w
  | ended _ w => w

def bodies : Machine → List Body
  | active _ bodies _ => bodies
  | ended _ _ => []

/-- The machine that is about to carry out a list. -/
def begin (w : World) (id : ResourceId) : Machine := active (.call 0 id) [] w

/-- The machine behind a part of a run; `flow` says how it goes on. -/
def behind {α : Type} (flow : α → Flow) (bodies : List Body) :
    EStateM.Result Fault World α → Machine
  | .ok a w => active (.back (flow a)) bodies w
  | .error fault w => ended (some fault) w

end Machine

namespace Activity

/-- One step of a machine that has not ended. -/
def step (p : Program) (bodies : List Body) (w : World) : Activity → Machine
  | call depth id =>
    if maxDepth < depth then .ended (some .depthExceeded) w
    else
      match p.get? id with
      | none => .ended (some (.unknownFunction id)) w
      | some os => .active (back .next) (⟨depth, os⟩ :: bodies) w
  | start depth o =>
    if w.executed < budget then .active (perform depth o) bodies w.counted
    else .ended (some .budgetExhausted) w.counted
  | perform depth o =>
    match o with
    | .call id => .active (call (depth + 1) id) bodies w
    | .guard expected t text next =>
      if w.outcome text t = expected then .active (perform depth next) bodies (w.evaluated text)
      else .active (back .next) bodies (w.evaluated text)
    | .run next => .active (start depth next) bodies w
    | o => .behind id bodies (Run.order (fun _ => pure ()) o w)
  | back flow =>
    match bodies with
    | [] => .ended none w
    | ⟨depth, rest⟩ :: bodies =>
      match flow, rest with
      | .next, o :: os => .active (start depth o) (⟨depth, os⟩ :: bodies) w
      | _, _ => .active (back .next) bodies w

/-- How many commands a step starts. -/
def starts : Activity → Nat
  | start _ _ => 1
  | _ => 0

theorem starts_le (a : Activity) : a.starts ≤ 1 := by
  cases a <;> simp [starts]

end Activity

namespace Machine

/-- One step, unless the run has ended. -/
def step (p : Program) : Machine → Option Machine
  | active a bodies w => some (a.step p bodies w)
  | ended _ _ => none

/-- A run from one machine to another one that starts as many commands. -/
inductive Reaches (p : Program) : Machine → Nat → Machine → Prop
  | refl (m : Machine) : Reaches p m 0 m
  | step (a : Activity) (bodies : List Body) (w : World) {n : Nat} {m : Machine}
      (h : Reaches p (a.step p bodies w) n m) : Reaches p (active a bodies w) (a.starts + n) m

theorem Reaches.trans {p : Program} {m m' m'' : Machine} {n k : Nat} (h : Reaches p m n m')
    (h' : Reaches p m' k m'') : Reaches p m (n + k) m'' := by
  induction h with
  | refl m => rwa [Nat.zero_add]
  | step a bodies w h ih =>
    rw [Nat.add_assoc]
    exact .step a bodies w (ih h')

/-- There is a run from one machine to the other one. -/
def Leads (p : Program) (m m' : Machine) : Prop := ∃ n, Reaches p m n m'

namespace Leads

variable {p : Program}

theorem refl (m : Machine) : Leads p m m := ⟨0, .refl m⟩

theorem trans {m m' m'' : Machine} : Leads p m m' → Leads p m' m'' → Leads p m m''
  | ⟨n, h⟩, ⟨k, h'⟩ => ⟨n + k, h.trans h'⟩

/-- A run whose first step is known. -/
theorem of_step {a : Activity} {bodies : List Body} {w : World} {m m' : Machine}
    (hstep : a.step p bodies w = m) (h : Leads p m m') : Leads p (active a bodies w) m' := by
  obtain ⟨n, h⟩ := h
  exact ⟨a.starts + n, .step a bodies w (hstep ▸ h)⟩

end Leads

end Machine

/-! ## A run at once and step by step -/

section Agreement

variable {p : Program} {callee : ResourceId → Run Unit} {depth : Nat}

open Machine

/-- Step by step, a machine at a depth calls lists as `callee` carries them out. -/
def Machine.Calls (p : Program) (depth : Nat) (callee : ResourceId → Run Unit) : Prop :=
  ∀ list bodies w,
    Leads p (active (.call depth list) bodies w) (behind (fun _ => .next) bodies (callee list w))

/-- A command is counted, and is carried out if the budget allows it. -/
theorem leads_start {o : Order} {bodies : List Body}
    (h : ∀ w, Leads p (active (.perform depth o) bodies w) (behind id bodies (order callee o w)))
    (w : World) :
    Leads p (active (.start depth o) bodies w) (behind id bodies (command callee o w)) := by
  by_cases hw : w.executed < budget
  · rw [command_of_lt hw]
    exact .of_step (if_pos hw) (h w.counted)
  · rw [command_of_not_lt hw]
    exact .of_step (if_neg hw) (.refl _)

theorem leads_order (hcallee : Calls p (depth + 1) callee) (o : Order) (bodies : List Body)
    (w : World) :
    Leads p (active (.perform depth o) bodies w) (behind id bodies (order callee o w)) := by
  induction o generalizing w with
  | call list =>
    have hbehind : behind id bodies (order callee (.call list) w) =
        behind (fun _ => .next) bodies (callee list w) := by
      show behind id bodies (EStateM.bind (callee list) (fun _ => pure .next) w) = _
      unfold EStateM.bind
      cases callee list w <;> rfl
    rw [hbehind]
    exact .of_step rfl (hcallee list bodies w)
  | guard expected t text next ih =>
    rw [order_guard]
    by_cases h : w.outcome text t = expected
    · rw [if_pos h]
      exact .of_step (if_pos h) (ih (w.evaluated text))
    · rw [if_neg h]
      exact .of_step (if_neg h) (.refl _)
  | run next ih =>
    rw [order_run]
    exact .of_step rfl (leads_start ih w)
  | _ => exact .of_step rfl (.refl _)

/-- The commands of a list, from the innermost list back to the one around it. -/
theorem leads_commands (hcallee : Calls p (depth + 1) callee) (os : List Order)
    (bodies : List Body) (w : World) :
    Leads p (active (.back .next) (⟨depth, os⟩ :: bodies) w)
      (behind (fun _ => .next) bodies (commands callee os w)) := by
  induction os generalizing w with
  | nil => exact .of_step rfl (.refl _)
  | cons o os ih =>
    have hstart := leads_start (fun w => leads_order hcallee o (⟨depth, os⟩ :: bodies) w) w
    refine .of_step rfl (hstart.trans ?_)
    rw [commands]
    show Leads p _ (behind (fun _ => .next) bodies (EStateM.bind (command callee o) _ w))
    unfold EStateM.bind
    cases command callee o w with
    | error fault w => exact .refl _
    | ok flow w =>
      cases flow with
      | next => exact ih w
      | leave => exact .of_step rfl (.refl _)

/-- **Step by step, lists are called as they are at once**, if the depths agree. -/
theorem calls_function (d : Nat) : ∀ depth, depth + d = maxDepth + 1 →
    Calls p depth (Run.function p d) := by
  induction d with
  | zero =>
    intro depth hdepth list bodies w
    exact .of_step (if_pos (by omega)) (.refl _)
  | succ d ih =>
    intro depth hdepth list bodies w
    have hnot : ¬ maxDepth < depth := by omega
    cases hlist : p.get? list with
    | none =>
      refine .of_step (m := .ended (some (.unknownFunction list)) w) ?_ ?_
      · simp [Activity.step, hnot, hlist]
      · simp only [Run.function, hlist]
        exact .refl _
    | some os =>
      refine .of_step (m := .active (.back .next) (⟨depth, os⟩ :: bodies) w) ?_ ?_
      · simp [Activity.step, hnot, hlist]
      · simp only [Run.function, hlist]
        exact leads_commands (ih (depth + 1) (by omega)) os bodies w

/-- A machine carries out a list as the program does. -/
theorem leads_run (p : Program) (w : World) (list : ResourceId) :
    Leads p (begin w list) (ended (p.run w list).1 (p.run w list).2) := by
  refine (calls_function (maxDepth + 1) 0 (Nat.zero_add _) list [] w).trans ?_
  unfold Program.run
  cases Run.function p (maxDepth + 1) list w with
  | ok _ w => exact .of_step rfl (.refl _)
  | error fault w => exact .refl _

end Agreement

/-! ## What one step does -/

/-- How many tests stand in front of what an order does. -/
def Order.tests : Order → Nat
  | .guard _ _ _ next => next.tests + 1
  | _ => 0

/-- The steps of a machine, as far as they matter to counts and depths. -/
inductive Activity.Moves (w : World) : Activity → List Body → Machine → Prop
  | enter {depth : Nat} (h : depth ≤ maxDepth) (list : ResourceId) (os : List Order)
      (bodies : List Body) :
      Moves w (call depth list) bodies (.active (back .next) (⟨depth, os⟩ :: bodies) w)
  | start (h : w.executed < budget) (depth : Nat) (o : Order) (bodies : List Body) :
      Moves w (start depth o) bodies (.active (perform depth o) bodies w.counted)
  | exhausted (h : ¬ w.executed < budget) (depth : Nat) (o : Order) (bodies : List Body) :
      Moves w (start depth o) bodies (.ended (some .budgetExhausted) w.counted)
  | call (depth : Nat) (list : ResourceId) (bodies : List Body) :
      Moves w (perform depth (.call list)) bodies (.active (call (depth + 1) list) bodies w)
  | pass (depth : Nat) (expected : Bool) (t : Test) (text : String) (next : Order)
      (bodies : List Body) :
      Moves w (perform depth (.guard expected t text next)) bodies
        (.active (perform depth next) bodies (w.evaluated text))
  | run (depth : Nat) (next : Order) (bodies : List Body) :
      Moves w (perform depth (.run next)) bodies (.active (start depth next) bodies w)
  | done {v : World} (h : v.executed = w.executed) (depth : Nat) (o : Order) (flow : Flow)
      (bodies : List Body) : Moves w (perform depth o) bodies (.active (back flow) bodies v)
  | next (depth : Nat) (o : Order) (os : List Order) (bodies : List Body) :
      Moves w (back .next) (⟨depth, o :: os⟩ :: bodies)
        (.active (start depth o) (⟨depth, os⟩ :: bodies) w)
  | leave (flow : Flow) (body : Body) (bodies : List Body) :
      Moves w (back flow) (body :: bodies) (.active (back .next) bodies w)
  | stop {a : Activity} (h : a.starts = 0) (fault : Option Fault) (bodies : List Body) :
      Moves w a bodies (.ended fault w)

namespace Activity

theorem moves_call (p : Program) (bodies : List Body) (w : World) (depth : Nat)
    (list : ResourceId) : Moves w (call depth list) bodies ((call depth list).step p bodies w) := by
  by_cases h : maxDepth < depth
  · rw [step, if_pos h]
    exact .stop rfl _ bodies
  · rw [step, if_neg h]
    cases p.get? list with
    | none => exact .stop rfl _ bodies
    | some os => exact .enter (Nat.le_of_not_lt h) list os bodies

theorem moves_start (p : Program) (bodies : List Body) (w : World) (depth : Nat) (o : Order) :
    Moves w (.start depth o) bodies ((start depth o).step p bodies w) := by
  by_cases h : w.executed < budget
  · rw [step, if_pos h]
    exact .start h depth o bodies
  · rw [step, if_neg h]
    exact .exhausted h depth o bodies

theorem moves_perform (p : Program) (bodies : List Body) (w : World) (depth : Nat) (o : Order) :
    Moves w (perform depth o) bodies ((perform depth o).step p bodies w) := by
  cases o with
  | call list => exact .call depth list bodies
  | guard expected t text next =>
    by_cases h : w.outcome text t = expected
    · rw [step, if_pos h]
      exact .pass depth expected t text next bodies
    · rw [step, if_neg h]
      exact .done (World.executed_evaluated w text) depth _ .next bodies
  | run next => exact .run depth next bodies
  | combine target c source =>
    exact .done (World.executed_combine w target c source) depth _ .next bodies
  | malformed line => exact .stop rfl _ bodies
  | _ =>
    refine .done ?_ depth _ _ bodies
    rfl

theorem moves_back (p : Program) (bodies : List Body) (w : World) (flow : Flow) :
    Moves w (back flow) bodies ((back flow).step p bodies w) := by
  cases bodies with
  | nil => exact .stop rfl none []
  | cons body bodies =>
    obtain ⟨depth, rest⟩ := body
    cases flow with
    | leave => exact .leave .leave _ bodies
    | next =>
      cases rest with
      | nil => exact .leave .next _ bodies
      | cons o os => exact .next depth o os bodies

/-- **What a step does.** -/
theorem moves_step (p : Program) (bodies : List Body) (w : World) (a : Activity) :
    Moves w a bodies (a.step p bodies w) := by
  cases a with
  | call depth list => exact moves_call p bodies w depth list
  | start depth o => exact moves_start p bodies w depth o
  | perform depth o => exact moves_perform p bodies w depth o
  | back flow => exact moves_back p bodies w flow

/-- The count of a world is the number of starts. -/
theorem Moves.executed {w : World} {a : Activity} {bodies : List Body} {m : Machine}
    (h : Moves w a bodies m) : m.world.executed = w.executed + a.starts := by
  cases h with
  | done h => exact h
  | stop h => rw [h]; rfl
  | _ => rfl

/-! ## What gets less -/

/-- How far a machine inside of as many lists is from the next start of a command. -/
def weight (lists : Nat) : Activity → Nat
  | start _ _ => 1
  | back _ => lists + 2
  | call _ _ => lists + 4
  | perform _ o => lists + 5 + o.tests

theorem weight_pos (lists : Nat) (a : Activity) : 0 < a.weight lists := by
  cases a <;> simp only [weight] <;> omega

end Activity

namespace Machine

def weight : Machine → Nat
  | active a bodies _ => a.weight bodies.length
  | ended _ _ => 0

/-- The commands that can still be counted and, until the next one, what comes before it. -/
def potential (m : Machine) : ℕ ×ₗ ℕ := toLex (budget + 1 - m.world.executed, m.weight)

end Machine

/-- A step starts a command within the budget, or what comes before the next start gets less. -/
theorem Activity.Moves.weight_lt {w : World} {a : Activity} {bodies : List Body} {m : Machine}
    (h : Moves w a bodies m) :
    a.starts = 1 ∧ w.executed < budget ∨ m.weight < a.weight bodies.length := by
  cases h with
  | start h => exact .inl ⟨rfl, h⟩
  | pass depth expected t text next => exact .inr (Nat.add_lt_add_left next.tests.lt_succ_self _)
  | stop h => exact .inr (a.weight_pos _)
  | _ =>
    right
    simp only [Machine.weight, weight, List.length_cons]
    omega

/-- **Every step lessens the potential.** -/
theorem Machine.potential_step {p : Program} {m next : Machine} (h : m.step p = some next) :
    next.potential < m.potential := by
  cases m with
  | ended fault w => cases h
  | active a bodies w =>
    obtain rfl := Option.some.inj h
    have hmoves := a.moves_step p bodies w
    have hcount := hmoves.executed
    rw [potential, potential, Prod.Lex.toLex_lt_toLex, hcount]
    show budget + 1 - (w.executed + a.starts) < budget + 1 - w.executed ∨ _
    rcases hmoves.weight_lt with ⟨hstart, hbudget⟩ | hweight
    · omega
    · have hle : budget + 1 - (w.executed + a.starts) ≤ budget + 1 - w.executed := by omega
      exact (Nat.lt_or_eq_of_le hle).imp_right fun heq => ⟨heq, hweight⟩

theorem Machine.wellFounded_step (p : Program) :
    WellFounded fun next m : Machine => m.step p = some next :=
  Subrelation.wf potential_step (InvImage.wf potential wellFounded_lt)

/-! ## What a run keeps -/

/-- The lists that are being carried out are inside one another: each is inside of as many calls as
there are lists around it, and of no more than there can be. -/
structure Nested (bodies : List Body) : Prop where
  depths : bodies.map Body.depth = (List.range bodies.length).reverse
  length_le : bodies.length ≤ maxDepth + 1

/-- What a machine does next happens in the innermost one of as many lists. -/
def Activity.IsIn (lists : Nat) : Activity → Prop
  | call depth _ => depth = lists
  | start depth _ => depth + 1 = lists
  | perform depth _ => depth + 1 = lists
  | back _ => True

namespace Nested

theorem nil : Nested [] := ⟨rfl, Nat.zero_le _⟩

theorem cons_iff {body : Body} {bodies : List Body} :
    Nested (body :: bodies) ↔
      body.depth = bodies.length ∧ bodies.length ≤ maxDepth ∧ Nested bodies := by
  constructor
  · rintro ⟨hdepths, hlength⟩
    rw [List.length_cons, List.range_succ, List.reverse_append, List.map_cons] at hdepths
    obtain ⟨hdepth, hdepths⟩ := List.cons.inj hdepths
    rw [List.length_cons] at hlength
    exact ⟨hdepth, by omega, hdepths, by omega⟩
  · rintro ⟨hdepth, hlength, hdepths, -⟩
    refine ⟨?_, Nat.succ_le_succ hlength⟩
    rw [List.length_cons, List.range_succ, List.reverse_append, List.map_cons, hdepths, hdepth]
    rfl

theorem depth_le {bodies : List Body} (h : Nested bodies) {body : Body} (hbody : body ∈ bodies) :
    body.depth ≤ maxDepth := by
  have hmem := List.mem_map_of_mem (f := Body.depth) hbody
  rw [h.depths, List.mem_reverse, List.mem_range] at hmem
  have := h.length_le
  omega

end Nested

/-- What is kept by each step, with the commands it starts, is kept by a run. -/
theorem Machine.Reaches.keeps {p : Program} {I : Nat → Machine → Prop}
    (hstep : ∀ n a bodies w, I n (active a bodies w) → I (n + a.starts) (a.step p bodies w))
    {m m' : Machine} {n : Nat} (h : Reaches p m n m') {k : Nat} (hm : I k m) : I (k + n) m' := by
  induction h generalizing k with
  | refl m => exact hm
  | step a bodies w h ih =>
    rw [← Nat.add_assoc]
    exact ih (hstep k a bodies w hm)

/-- The lists of a machine are inside one another, and it is in the innermost one. -/
def Machine.IsNested : Machine → Prop
  | active a bodies _ => Nested bodies ∧ a.IsIn bodies.length
  | ended _ _ => True

/-- **A step** leaves lists inside one another. -/
theorem Activity.Moves.isNested {w : World} {a : Activity} {bodies : List Body} {m : Machine}
    (h : Moves w a bodies m) (hnested : Nested bodies) (hin : a.IsIn bodies.length) :
    m.IsNested := by
  cases h with
  | enter h list os =>
    obtain rfl : _ = bodies.length := hin
    exact ⟨Nested.cons_iff.mpr ⟨rfl, h, hnested⟩, trivial⟩
  | next depth o os bodies =>
    obtain ⟨hdepth, hlength, hrest⟩ := Nested.cons_iff.mp hnested
    exact ⟨Nested.cons_iff.mpr ⟨hdepth, hlength, hrest⟩, congrArg Nat.succ hdepth⟩
  | leave flow body bodies => exact ⟨(Nested.cons_iff.mp hnested).2.2, trivial⟩
  | done => exact ⟨hnested, trivial⟩
  | start | call | pass | run => exact ⟨hnested, hin⟩
  | exhausted | stop => trivial

/-- The machine has started as many commands since the world, and if it has started one and has not
ended, it is within the budget. -/
structure Machine.Counts (w : World) (n : Nat) (m : Machine) : Prop where
  executed : m.world.executed = w.executed + n
  starts_le : n ≤ max 1 (budget + 1 - w.executed)
  within : ∀ a bodies v, m = active a bodies v → n = 0 ∨ v.executed ≤ budget

/-- A machine that has started a command and goes on is within the budget. -/
theorem Activity.Moves.within {w v : World} {a b : Activity} {bodies bodies' : List Body}
    (h : Moves w a bodies (.active b bodies' v)) : a.starts = 0 ∨ v.executed ≤ budget := by
  cases h with
  | start h => exact .inr h
  | _ => exact .inl rfl

/-- **A step** counts what it starts. -/
theorem Activity.Moves.counts {u w : World} {a : Activity} {bodies : List Body} {m : Machine}
    (h : Moves w a bodies m) {n : Nat} (hcounts : Machine.Counts u n (.active a bodies w)) :
    Machine.Counts u (n + a.starts) m := by
  have hexecuted : w.executed = u.executed + n := hcounts.executed
  have hwithin := hcounts.within a bodies w rfl
  refine ⟨?_, ?_, ?_⟩
  · rw [h.executed, hexecuted, Nat.add_assoc]
  · have hle := hcounts.starts_le
    have hone := a.starts_le
    omega
  · rintro b bodies v rfl
    have hv : v.executed = w.executed + a.starts := h.executed
    rcases h.within with hstarts | hv
    · rwa [hv, hstarts]
    · exact .inr hv

namespace Machine

theorem IsNested.nested {m : Machine} (h : m.IsNested) : Nested m.bodies := by
  cases m with
  | active a bodies w => exact h.1
  | ended fault w => exact .nil

variable {p : Program} {w : World} {list : ResourceId} {n : Nat} {m : Machine}

/-- **A run** counts what it starts. -/
theorem Reaches.counts (h : Reaches p (begin w list) n m) : Counts w n m := by
  have hbegin : Counts w 0 (begin w list) := ⟨rfl, Nat.zero_le _, fun _ _ _ _ => .inl rfl⟩
  have hkeeps := h.keeps (I := Counts w)
    (fun n a bodies v hn => (a.moves_step p bodies v).counts hn) hbegin
  rwa [Nat.zero_add] at hkeeps

/-- **A run** leaves lists inside one another. -/
theorem Reaches.nested (h : Reaches p (begin w list) n m) : Nested m.bodies := by
  have hbegin : (begin w list).IsNested := ⟨.nil, rfl⟩
  have hkeeps := h.keeps (I := fun _ m => m.IsNested) (k := 0)
    (fun _ a bodies v hn => (a.moves_step p bodies v).isNested hn.1 hn.2) hbegin
  exact hkeeps.nested

end Machine

/-- **Every run ends.**  There is no unending sequence of steps, whatever machine it begins with.
Step by step, a machine carries out a list as the program does, and the world has counted the
commands that were started.  Until then it starts no more commands than the budget allows and one at
least, and it is never inside of more calls than there can be: the lists that it carries out are
inside of `0`, `1`, … calls, from the outermost to the innermost one. -/
theorem runs_end (p : Program) (w : World) (list : ResourceId) :
    (WellFounded fun next m : Machine => m.step p = some next) ∧
    (∃ n, Machine.Reaches p (.begin w list) n (.ended (p.run w list).1 (p.run w list).2) ∧
      (p.run w list).2.executed = w.executed + n) ∧
    ∀ n m, Machine.Reaches p (.begin w list) n m →
      n ≤ max 1 (Run.budget + 1 - w.executed) ∧
      m.bodies.map Body.depth = (List.range m.bodies.length).reverse ∧
      ∀ body ∈ m.bodies, body.depth ≤ Run.maxDepth := by
  obtain ⟨n, h⟩ := leads_run p w list
  refine ⟨Machine.wellFounded_step p, ⟨n, h, h.counts.executed⟩, fun n m h => ?_⟩
  exact ⟨h.counts.starts_le, h.nested.depths, fun body => h.nested.depth_le⟩

/-- A list that calls itself: the second call is inside of the first one, and the run ends where one
more call would be too deep. -/
theorem runs_end_cycle : ∃ (p : Program) (list : ResourceId), p.get? list = some [.call list] ∧
    (p.run {} list).1 = some .depthExceeded ∧ (p.run {} list).2.executed = 513 ∧
    (∃ n, Machine.Reaches p (.begin {} list) n (.ended (p.run {} list).1 (p.run {} list).2) ∧
      513 = 0 + n ∧ n ≤ max 1 (Run.budget + 1 - 0)) ∧
    ∃ m, Machine.Reaches p (.begin {} list) 1 m ∧ m.bodies = [⟨1, [.call list]⟩, ⟨0, []⟩] ∧
      ∀ body ∈ m.bodies, body.depth ≤ Run.maxDepth := by
  set main : ResourceId := ⟨"t", "main"⟩ with hmain
  set p : Program := [(main, [.call main])] with hp
  have hexecuted : (p.run {} main).2.executed = 513 := by
    rw [hp, hmain]
    decide +kernel
  have hrun : Machine.Reaches p (.begin {} main) 1
      (.active (.back .next) [⟨1, [.call main]⟩, ⟨0, []⟩] (World.counted {})) :=
    .step (n := 1) (.call 0 main) [] {} <|
    .step (n := 1) (.back .next) [⟨0, [.call main]⟩] {} <|
    .step (n := 0) (.start 0 (.call main)) [⟨0, []⟩] {} <|
    .step (n := 0) (.perform 0 (.call main)) [⟨0, []⟩] (World.counted {}) <|
    .step (n := 0) (.call 1 main) [⟨0, []⟩] (World.counted {}) (.refl _)
  obtain ⟨-, ⟨n, hend, hn⟩, hruns⟩ := runs_end p {} main
  refine ⟨p, main, rfl, ?_, hexecuted, ⟨n, hend, hexecuted ▸ hn, (hruns n _ hend).1⟩, _, hrun, rfl,
    (hruns 1 _ hrun).2.2⟩
  rw [hp, hmain]
  decide +kernel

end Packwright
