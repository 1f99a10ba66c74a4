import Packwright.Analysis
import Packwright.Proofs.Once
import Packwright.Proofs.Core.Loops
import Packwright.Proofs.Prepared

/-!
# Loops go round as long as their condition holds

The list of a loop calls itself from inside the guard of its condition.  So the rest of the guard
runs once more for every round when the calls come back, over flags that deeper rounds have written.

* `Loop`: a loop as it is generated, with its condition, and the lines in front of it.
* `Loop.Fits`, `Loop.Fits.of_settled`: what the rounds ask of a loop and of a program; for a
  generated condition, all that is asked of the condition is so.
* `Rounds c step`: steps, one after another, as long as the condition holds.
* `Loop.rounds_of_guard`: by induction on the depth, a run of the guard goes through such rounds,
  and the condition is false when it is over; so the rest of a guard does nothing.
* `Loop.iterates`: outside of the flags, a run of the lines of a loop is such rounds.
* `body_sees_flag`: a body that reads a flag behaves differently in the loop.
-/

namespace Packwright

open Gen Run Words

/-! ## Loops as they are generated -/

/-- A loop that is generated in a draft.  Its condition has a meaning, and its body declares no
function. -/
structure Loop where
  start : Draft
  span : Span
  test : Expr
  body : Stmt
  condition : Condition
  /-- The lines that prepare the operands of the condition. -/
  setup : List String
  tested : Draft
  setup_eq : (capture test.generateCondition.run).run (start.draw (.list "while")) =
    ((some condition, setup), tested)
  opened : start.frames ≠ []
  flat : body.flat = true

namespace Loop

variable (L : Loop)

/-- The name of the list of the loop. -/
def id : ResourceId := L.start.options.list "while" (L.start.count (.list "while"))

/-- The guarded call of the list. -/
def guard : List String := ((L.condition.lower (Line.call L.id)).run L.tested).1

def guarded : Draft := ((L.condition.lower (Line.call L.id)).run L.tested).2

/-- The lines of the body. -/
def lines : List String := ((capture (inScope L.body.generate)).run L.guarded).1.2

def finished : Draft := ((capture (inScope L.body.generate)).run L.guarded).2

/-- The draft behind the loop. -/
def behind : Draft := ((Stmt.while L.span L.test L.body).generate.run L.start).2

/-- The flags of the guard. -/
def flags : Set Score := L.tested.fresh L.guarded

/-- The loop over a test that has a meaning. -/
def ofTest (start : Draft) (span : Span) (test : Expr) (body : Stmt)
    (hsome : ((capture test.generateCondition.run).run (start.draw (.list "while"))).1.1.isSome)
    (opened : start.frames ≠ []) (flat : body.flat = true) : Loop where
  start := start
  span := span
  test := test
  body := body
  condition := ((capture test.generateCondition.run).run (start.draw (.list "while"))).1.1.get hsome
  setup := ((capture test.generateCondition.run).run (start.draw (.list "while"))).1.2
  tested := ((capture test.generateCondition.run).run (start.draw (.list "while"))).2
  setup_eq := Prod.ext (Prod.ext (Option.some_get hsome).symm rfl) rfl
  opened := opened
  flat := flat

theorem lower_eq : (L.condition.lower (Line.call L.id)).run L.tested = (L.guard, L.guarded) := rfl

end Loop

/-- What is written in a list of its own is not written in the one outside. -/
theorem grows_captured {α : Type} {act : Gen α} (h : Gen.Grows act) (d : Draft) :
    d.Grows [] ((capture act).run d).2 := by
  obtain ⟨lines, hlines⟩ := h d.pushFrame
  rw [run_capture _ _ hlines]
  exact hlines.popFrame.2

namespace Loop

variable (L : Loop) {p : Program}

theorem grows_tested : (L.start.draw (.list "while")).Grows [] L.tested := by
  have h := grows_captured L.test.grows_generateCondition (L.start.draw (.list "while"))
  rw [L.setup_eq] at h
  exact h

theorem grows_guarded : L.tested.Grows [] L.guarded := Condition.grows_of_lower L.lower_eq

theorem grows_finished : L.guarded.Grows [] L.finished :=
  grows_captured (.inScope (Grows.makes.branch L.body (Stmt.names_of_flat L.flat))) L.guarded

/-- The list of a loop holds its body, the preparation of its condition and the guarded call.  The
last two are what stands in the list outside. -/
theorem behind_eq : L.behind =
    ((L.finished.withFunction L.id (L.lines ++ L.setup ++ L.guard)).write L.setup).write
      L.guard := by
  unfold behind
  rw [Stmt.generate, run_generateLoop L.setup_eq L.lower_eq rfl]
  rfl

theorem written_eq : L.start.written L.behind = L.setup ++ L.guard := by
  have hwhile : Lettered "while" := by decide
  have hdrawn := Draft.Grows.draw L.start (.list "while")
  have hbody := L.grows_tested.trans (L.grows_guarded.trans L.grows_finished)
  have hlist := (hdrawn.trans hbody).addFunction hwhile le_rfl
    ((L.start.lt_count_draw _).trans_le (hbody.count _)) (L.lines ++ L.setup ++ L.guard)
  have hall := hlist.trans ((Draft.Grows.write _ L.setup).trans (.write _ L.guard))
  rw [L.behind_eq]
  exact hall.written_eq L.opened

/-- A program with the lists of the loop has its list under its name, and the lists of the guard. -/
theorem holds_behind (h : p.Holds L.start L.behind) :
    p.get? L.id = some ((L.lines ++ L.setup ++ L.guard).map Order.ofText) ∧
      p.Holds L.tested L.guarded := by
  have hbody := L.grows_tested.trans (L.grows_guarded.trans L.grows_finished)
  rw [L.behind_eq] at h
  have hlist : p.Holds L.start (L.finished.withFunction L.id (L.lines ++ L.setup ++ L.guard)) := h
  obtain ⟨hget, hlists⟩ := hlist.withFunction (by decide) hbody
  exact ⟨hget, (hlists.right L.grows_tested).left L.grows_guarded L.grows_finished⟩

/-- The program holds the lists that the lines in front of the condition call. -/
theorem holds_tested (h : p.Holds L.start L.behind) :
    p.Holds (L.start.draw (.list "while")) L.tested := by
  have hbody := L.grows_tested.trans (L.grows_guarded.trans L.grows_finished)
  rw [L.behind_eq] at h
  have hlist : p.Holds L.start (L.finished.withFunction L.id (L.lines ++ L.setup ++ L.guard)) := h
  exact (hlist.withFunction (by decide) hbody).2.left L.grows_tested
    (L.grows_guarded.trans L.grows_finished)

theorem worded_id (h : L.start.options.Plain) : L.id.Worded := h.worded_list (by decide) _

theorem plain_tested (h : L.start.options.Plain) : L.tested.options.Plain := by
  rw [L.grows_tested.options]
  exact h

end Loop

/-! ## Rounds -/

/-- Steps, one after another, as long as a condition holds. -/
inductive Rounds (c : Condition) (step : World → World → Prop) : World → World → Prop
  | stop {w : World} (h : c.holds w = false) : Rounds c step w w
  | round {w w₁ w' : World} (h : c.holds w = true) (hstep : step w w₁)
    (hrest : Rounds c step w₁ w') : Rounds c step w w'

/-- Rounds of a step that does not see `F` go the same way in a world that is covered. -/
theorem Rounds.transfer {c : Condition} {step : World → World → Prop} {F : Set Score}
    (hc : Condition.Spares c.predicates F)
    (hstep : ∀ {u u' v}, step u u' → World.Covers F u v → ∃ v', step v v' ∧ World.Covers F u' v')
    {w w' v : World} (h : Rounds c step w w') (hv : World.Covers F w v) :
    ∃ v', Rounds c step v v' ∧ World.Covers F w' v' := by
  induction h generalizing v with
  | stop h => exact ⟨v, .stop (by rw [hv.holds hc, h]), hv⟩
  | round h hs _ ih =>
    obtain ⟨v₁, hv₁, hcov⟩ := hstep hs hv
    obtain ⟨v', hv', hcov'⟩ := ih hcov
    exact ⟨v', .round (by rw [hv.holds hc, h]) hv₁ hv', hcov'⟩

namespace Loop

variable {L : Loop} {p : Program} {depth : Nat} {w w' : World} {f : Flow}

/-- One round: the body, and the preparation of the condition for the next one. -/
def step (L : Loop) (p : Program) (depth : Nat) (w w' : World) : Prop :=
  commands (function p depth) ((L.lines ++ L.setup).map Order.ofText) w = .ok () w'

/-- What a loop and a program must be like for the rounds of the loop: the names in the condition
are words, the condition reads none of its own flags, the program holds the lists of the loop, and
the lines of a round neither leave their list nor touch the flags.  By `Fits.of_settled`, only the
program and the lines of the body are to be looked at. -/
structure Fits (L : Loop) (p : Program) : Prop where
  plain : L.start.options.Plain
  worded : Condition.Worded L.condition.predicates
  spares : Condition.Spares L.condition.predicates L.flags
  holds : p.Holds L.start L.behind
  stays : ∀ line ∈ L.lines ++ L.setup, (Order.ofText line).leaves = false
  ignores : ∀ line ∈ L.lines ++ L.setup, (Order.ofText line).Ignores p L.flags

/-- The condition is settled, and the lines in front of it are calm. -/
theorem prepared (hstart : L.start.Settled) (htest : L.test.Worded) :
    L.condition.Settled L.tested ∧
      ∃ d, (L.start.draw (.list "while")).pushFrame.Prepares L.setup d ∧ d.popFrame = L.tested := by
  have hsettled := (hstart.grow (.draw L.start (.list "while")) rfl).pushFrame
  obtain ⟨o, d, hrun⟩ : ∃ o d, L.test.generateCondition.run.run
    (L.start.draw (.list "while")).pushFrame = (o, d) := ⟨_, _, rfl⟩
  obtain rfl : o = some L.condition := by
    have hcondition := congrArg (·.1.1) L.setup_eq
    change (L.test.generateCondition.run.run (L.start.draw (.list "while")).pushFrame).1 = _
      at hcondition
    rwa [hrun] at hcondition
  obtain ⟨⟨lines, hlines⟩, hcondition⟩ :=
    Expr.supplies_generateCondition htest hsettled L.condition d hrun
  have hgrows : (L.start.draw (.list "while")).pushFrame.Grows lines
      (L.test.generateCondition.run.run (L.start.draw (.list "while")).pushFrame).2 := by
    rw [hrun]
    exact hlines.toGrows
  have hcapture := L.setup_eq.symm.trans (run_capture _ _ hgrows)
  rw [hrun] at hcapture
  obtain ⟨hsetup, htested⟩ := Prod.mk.inj hcapture
  obtain rfl : L.setup = lines := (Prod.mk.inj hsetup).2
  rw [htested]
  exact ⟨hcondition, d, hlines, rfl⟩

namespace Fits

/-- **Generated conditions fit.**  The names in the condition are words, and neither the condition
nor the lines in front of it touch its flags, which are drawn later. -/
theorem of_settled (hstart : L.start.Settled) (htest : L.test.Worded)
    (holds : p.Holds L.start L.behind)
    (stays : ∀ line ∈ L.lines, (Order.ofText line).leaves = false)
    (ignores : ∀ line ∈ L.lines, (Order.ofText line).Ignores p L.flags) : L.Fits p := by
  obtain ⟨hcondition, d, hsetup, htested⟩ := prepared hstart htest
  have hlists : p.Holds (L.start.draw (.list "while")).pushFrame d := by
    have h := L.holds_tested holds
    rw [← htested] at h
    exact h
  have hflags : L.flags = d.fresh L.guarded := by
    rw [flags, ← htested]
    rfl
  refine ⟨hstart.plain, fun q hq => (hcondition q hq).1,
    fun q hq s hs => (hcondition q hq).2 s hs _, holds, ?_, ?_⟩
  · exact List.forall_mem_append.mpr ⟨stays, fun line hline => (hsetup.calm.lines line hline).stays⟩
  · rw [hflags] at ignores ⊢
    exact List.forall_mem_append.mpr ⟨ignores, hsetup.ignores hlists⟩

variable (h : L.Fits p)

include h

theorem lowering : Lowering p L.condition.predicates L.tested L.guarded :=
  ⟨L.plain_tested h.plain, h.worded, h.spares, (L.holds_behind h.holds).2⟩

theorem next {n : Nat} (hrun : sequence (function p n) ((L.lines ++ L.setup).map Order.ofText) w =
    .ok f w') : f = .next :=
  sequence_next (List.forall_mem_map.mpr h.stays) hrun

/-- A round goes the same way in a world that is covered, where there is no less depth. -/
theorem transfer {n : Nat} (hn : n ≤ depth) {u v : World}
    (hrun : sequence (function p n) ((L.lines ++ L.setup).map Order.ofText) u = .ok f v)
    (hw : World.Covers L.flags u w) :
    ∃ w₁, L.step p depth w w₁ ∧ World.Covers L.flags v w₁ := by
  obtain ⟨w₁, hw₁, hcov⟩ :=
    Order.Ignores.sequence_transfer (List.forall_mem_map.mpr h.ignores) hn hrun hw
  exact ⟨w₁, commands_ok.mpr ⟨f, hw₁⟩, hcov⟩

theorem transfer_rounds {v : World} (hrounds : Rounds L.condition (L.step p depth) w w')
    (hv : World.Covers L.flags w v) :
    ∃ v', Rounds L.condition (L.step p depth) v v' ∧ World.Covers L.flags w' v' := by
  refine Rounds.transfer h.spares (fun hstep hcov => ?_) hrounds hv
  obtain ⟨f, hs⟩ := commands_ok.mp hstep
  exact h.transfer le_rfl hs hcov

end Fits

/-- **The guard of a loop goes through rounds.**  The condition is false when a run of the guard is
over.  So where a call of the list comes back, the rest of the guard around it finds the condition
settled.  By induction on the depth: every round is one call deeper. -/
theorem rounds_of_guard (h : L.Fits p) : ∀ n ≤ depth, ∀ {w w' : World} {f : Flow},
    sequence (function p n) (L.guard.map Order.ofText) w = .ok f w' →
      f = .next ∧ L.condition.holds w' = false ∧
        ∃ w₁, Rounds L.condition (L.step p depth) w w₁ ∧ World.Agree L.flags w₁ w' := by
  have hid := L.worded_id h.plain
  have hget := (L.holds_behind h.holds).1
  intro n
  induction n using Nat.strong_induction_on with
  | _ n ih =>
    intro hn w w' f hrun
    -- a call of the list: one round, and all that follow it
    have hcall : ∀ m ≤ n, ∀ {u v : World} {g : Flow},
        command (function p m) (Order.ofText (Line.call L.id)) u = .ok g v →
        g = .next ∧ L.condition.holds v = false ∧ ∃ k g' x v₁, k ≤ depth ∧
          sequence (function p k) ((L.lines ++ L.setup).map Order.ofText) u.counted = .ok g' x ∧
          Rounds L.condition (L.step p depth) x v₁ ∧ World.Agree L.flags v₁ v := by
      intro m hm u v g hcmd
      obtain ⟨rfl, k, g', rfl, hs⟩ := command_list_ok hid hget hcmd
      obtain ⟨x, hx, hguard⟩ := sequence_lines_append (fun _ _ hx => h.next hx) hs
      obtain ⟨-, hfalse, v₁, hrounds, hagree⟩ := ih k (by omega) (by omega) hguard
      exact ⟨rfl, hfalse, k, .next, x, v₁, by omega, hx, hrounds, hagree⟩
    have hguarded := Condition.guarded_lower L.condition L.lower_eq h.lowering
      (Line.joined_call hid) (fun _ _ m hm u v _ hcmd => Or.inr (hcall m hm hcmd).2.1) hrun
    cases htruth : L.condition.holds w with
    | false =>
      rw [htruth] at hguarded
      obtain ⟨rfl, hagree⟩ : f = .next ∧ World.Agree L.flags w w' := hguarded
      exact ⟨rfl, by rw [hagree.holds h.spares, htruth], w, .stop htruth, hagree⟩
    | true =>
      rw [htruth] at hguarded
      obtain ⟨m, g, u, v, hm, hu, hle, hcmd, hv, rfl⟩ := hguarded
      obtain ⟨rfl, hfalse, k, g', x, v₁, hk, hx, hrounds, hagree⟩ := hcall m hm hcmd
      obtain ⟨x₁, hstep, hcov⟩ := h.transfer hk hx
        ⟨(hu.trans (.counted _ u)).symm, by simp; omega⟩
      obtain ⟨v₂, hrounds₂, hcov₂⟩ := h.transfer_rounds hrounds hcov
      exact ⟨by simp, by rw [hv.holds h.spares, hfalse], v₂, .round htruth hstep hrounds₂,
        hcov₂.toAgree.symm.trans (hagree.trans hv)⟩

/-- **A loop goes round exactly as long as its condition holds.**  Where a run of the lines of a
loop ends without a fault, the preparation of the condition runs first, and then the body with the
next preparation as often as the condition holds.  The flags of the guard apart, the world at the
end is the one behind these rounds. -/
theorem iterates (h : L.Fits p)
    (hrun : commands (function p depth) ((L.start.written L.behind).map Order.ofText) w =
      .ok () w') :
    ∃ v w₁, commands (function p depth) (L.setup.map Order.ofText) w = .ok () v ∧
      Rounds L.condition (fun u u' => commands (function p depth)
        ((L.lines ++ L.setup).map Order.ofText) u = .ok () u') v w₁ ∧
      World.Agree L.flags w₁ w' := by
  obtain ⟨f, hs⟩ := commands_ok.mp hrun
  rw [L.written_eq] at hs
  have hstays : ∀ line ∈ L.setup, (Order.ofText line).leaves = false := fun line hline =>
    h.stays line (List.mem_append_right _ hline)
  obtain ⟨v, hv, hguard⟩ := sequence_lines_append
    (fun _ _ hx => sequence_next (List.forall_mem_map.mpr hstays) hx) hs
  obtain ⟨-, -, w₁, hrounds, hagree⟩ := rounds_of_guard h depth le_rfl hguard
  exact ⟨v, w₁, commands_ok.mpr ⟨_, hv⟩, hrounds, hagree⟩

end Loop

/-! ## A loop over a negated conjunction -/

namespace CountUp

def info (kind : Kind) : Info := ⟨.plain kind, ⟨0, 0⟩⟩

def x : Expr := .name (info .score) "x"

def number (n : Amount) : Expr := .literal (info .int) (.int n)

def compare (relation : Relation) (e : Expr) (n : Amount) : Expr :=
  .binary (info .condition) (.relate relation) e (number n)
    (some ⟨.relate relation, .int, .condition, .compareScore relation⟩)

/-- `!(x == 2 && x + 1 > 1)` -/
def test : Expr :=
  .unary (info .condition) .not
    (.binary (info .condition) .and (compare .eq x 2)
      (compare .gt (.binary (info .score) (.arith .add) x (number 1)
        (some ⟨.arith .add, .int, .score, .scoreArith .add⟩)) 1)
      (some ⟨.and, .condition, .condition, .conjoin⟩))
    (some ⟨.not, .condition, .invert⟩)

/-- `{ x += 1 say "b" }` -/
def body : Stmt :=
  .block ⟨0, 0⟩ [.assign ⟨0, 0⟩ x (.update .add) (number 1)
      (some ⟨.update .add, .int, .void, .modify .add⟩),
    .command ⟨0, 0⟩ (.say (.literal (info .string) (.string "b")))]

/-- `var x = 0` -/
def declaration : Stmt :=
  .var ⟨0, 0⟩ ⟨"x", ⟨0, 0⟩⟩ (some (number 0)) (some ⟨.assign, .int, .void, .store⟩)

/-- The draft behind the declaration. -/
def start : Draft := (declaration.generate.run (Draft.empty { }).pushFrame.pushScope).2

theorem start_opened : start.frames ≠ [] := by decide +kernel

theorem start_settled : start.Settled := by
  have hword : "x".toList.all isInner = true := by decide
  have hwords : declaration.BindsWords := List.all_eq_true.mp hword
  exact Stmt.settled_generate rfl hwords
    (Draft.Settled.empty Options.plain_default).pushFrame.pushScope

/-- `while (!(x == 2 && x + 1 > 1)) { x += 1 say "b" }` -/
def loop : Loop := .ofTest start ⟨0, 0⟩ test body (by decide +kernel) start_opened rfl

end CountUp

open CountUp in
/-- The two rounds of `while (!(x == 2 && x + 1 > 1)) { x += 1 say "b" }`.  Each of two lines of the
guard may call the list of the loop. -/
theorem countUp_iterates :
    let p := loop.behind.pack.program
    let w := ({ } : World).setScore ⟨"$x", "datascript"⟩ 0
    loop.condition.repeats = true ∧ ∃ w' v w₁,
      commands (function p 9) ((loop.start.written loop.behind).map Order.ofText) w = .ok () w' ∧
      w'.output = #["say b", "say b"] ∧
      commands (function p 9) (loop.setup.map Order.ofText) w = .ok () v ∧
      Rounds loop.condition (fun u u' => commands (function p 9)
        ((loop.lines ++ loop.setup).map Order.ofText) u = .ok () u') v w₁ ∧
      World.Agree loop.flags w₁ w' := by
  intro p w
  have hlines : ∀ line ∈ loop.lines, (Order.ofText line).leaves = false ∧
      (Order.ofText line).target? = none ∧ ∀ s ∈ (Order.ofText line).scores,
        s.entry.toList.head? ≠ some '#' := by decide +kernel
  have hfits : loop.Fits p := .of_settled start_settled (by decide +kernel) (fun _ _ => rfl)
    (fun line hline => (hlines line hline).1)
    fun line hline => .of_target? (hlines line hline).2.1 fun s hs hm =>
      (hlines line hline).2.2 s hs (Draft.head?_of_mem_fresh hm)
  obtain ⟨hends, hsaid⟩ : succeeds (commands (function p 9)
        ((loop.start.written loop.behind).map Order.ofText)) w = true ∧
      (after (commands (function p 9)
        ((loop.start.written loop.behind).map Order.ofText)) w).output = #["say b", "say b"] := by
    decide +kernel
  obtain ⟨⟨⟩, w', hrun⟩ := exists_of_succeeds hends
  rw [after, hrun] at hsaid
  obtain ⟨v, w₁, hv, hrounds, hagree⟩ := Loop.iterates hfits hrun
  exact ⟨by decide +kernel, w', v, w₁, hrun, hsaid, hv, hrounds, hagree⟩

/-- **The flags are not for the body.**  A body that reads the flag of the condition finds it up in
the loop, but no line of the body or in front of the condition sets it: the function says `"hi"` in
both of its rounds, and the rounds alone say nothing. -/
theorem body_sees_flag :
    let line := "execute if score #or0 datascript matches 1 run say hi"
    let source := "function f \x7b\n var x = 1\n while (x == 1 || x == 2) \x7b\n cmd \"" ++ line ++
      "\"\n x += 1\n \x7d\n\x7d\n"
    let round := [line, "scoreboard players add $x datascript 1"]
    let (pack, report) := compile source { } { }
    let (fault, w) := pack.program.run { } ⟨"datascript", "f"⟩
    let outputOf (m : Run Unit) := match m (({ } : World).setScore ⟨"$x", "datascript"⟩ 1) with
      | .ok _ w' => some w'.output
      | .error _ _ => none
    report.diagnostics = [] ∧ fault = none ∧ w.output = #["say hi", "say hi"] ∧
      round <+: ((pack.function? ⟨"datascript", "__generated__/while_0"⟩).getD []) ∧
      outputOf (commands (function pack.program 3) ((round ++ round).map Order.ofText)) =
        some #[] := by
  decide +kernel

end Packwright
