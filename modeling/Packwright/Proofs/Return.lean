import Packwright.Analysis
import Packwright.Proofs.Guard

/-!
# Conditional returns

`if (e) { return }` puts the command that leaves a list behind the guards of its condition.  Leaving
ends the list in which the command stands, so the return ends the function only where the guards let
the command run in the list of the function itself.

* `Stmt.returnIf`: the statement.
* `return_stops_iff_inline`: what stands behind the statement is passed over exactly if the
  condition is `inline`.
* `late_return_runs_behind`: under a conjunction of two tests that hold, the function goes on.
* `conjunction_does_not_return`: the same function as a source, compiled and run.
-/

namespace Packwright

open Gen Run Words

/-- `if (e) { return }` -/
def Stmt.returnIf (span inner innermost : Span) (e : Expr) : Stmt :=
  .ifElse span e (.block inner [.return innermost]) none

variable {p : Program} {d d₁ d₂ d₃ d₄ d' : Draft} {e : Expr} {c : Condition}

/-- The lines of a conditional return are those of its condition, around the leaving of the list. -/
theorem run_returnIf {span inner innermost : Span}
    (h : e.generateCondition.run.run d₁ = (some c, d₂)) :
    (Stmt.returnIf span inner innermost e).generate.run d₁ =
      (emitAll ((c.lower Line.leave).run d₂).1).run ((c.lower Line.leave).run d₂).2 := by
  rw [Stmt.returnIf, Stmt.generate, run_bind, h]
  rfl

theorem command_leave_ok {callee : ResourceId → Run Unit} {w w' : World} {f : Flow}
    (h : command callee (Order.ofText Line.leave) w = .ok f w') : f = .leave ∧ w' = w.counted := by
  rw [Order.ofText_leave] at h
  have ho := (command_ok.mp h).2
  cases ho
  exact ⟨rfl, rfl⟩

/-- A guarded return leaves the list of its condition exactly if the condition is inline. -/
theorem guarded_leave {depth : Nat} {F : Set Score} {inline : Bool} {w w' : World} {f : Flow}
    (h : Guarded p depth F (Order.ofText Line.leave) true inline w f w') :
    f = (if inline then .leave else .next) ∧ World.Agree F w w' := by
  obtain ⟨n, g, u, v, -, hu, -, hrun, hv, rfl⟩ := h
  obtain ⟨rfl, rfl⟩ := command_leave_ok hrun
  exact ⟨rfl, hu.trans ((World.Agree.counted F u).trans hv)⟩

section Body

variable {before behind : List Stmt} {span inner innermost outer : Span} {declared : Declared}
  {annotations : List Annotation}

/-- The list of a function is made of the lines that its statements write. -/
theorem functions_generate {lines : List String} {body : List Stmt}
    (hname : declared.name ≠ d.options.main)
    (hgrows : d.pushFrame.pushScope.Grows lines d₄)
    (hbody : (generateAll body).run d.pushFrame.pushScope = ((), d₄))
    (h : (Stmt.function outer declared annotations body).generate.run d = ((), d')) :
    d'.pack.functions = d₄.pack.functions.put ⟨d.options.space, declared.name⟩ lines := by
  have hscope : d.pushFrame.Grows lines ((inScope (generateAll body)).run d.pushFrame).2 := by
    rw [run_inScope, hbody]
    exact hgrows.popScope.2
  rw [Stmt.generate, run_generateFunction, if_neg hname, run_bind, run_capture _ _ hscope] at h
  obtain ⟨-, rfl⟩ := Prod.mk.inj h
  show (List.foldl _ _ _ : Pack).functions = _
  rw [Pack.functions_foldl_addTag, run_inScope, hbody]
  rfl

/-- **A conditional return ends its function exactly if its condition is inline.**  Let the function
reach the statement in the world `v`, let the lines that prepare the condition lead to `v₁`, and let
the condition hold there.  The return changes nothing but flags, to a world `u`.  If the condition
is inline, the call ends in `u`, and otherwise the lines behind the statement run from `u` on. -/
theorem return_stops_iff_inline {depth : Nat} {w v v₁ w' : World}
    (hoptions : d.options.Plain) (hname : declared.name ≠ d.options.main)
    (hbefore : flatAll before = true) (hbehind : flatAll behind = true)
    (h₁ : (generateAll before).run d.pushFrame.pushScope = ((), d₁))
    (h₂ : e.generateCondition.run.run d₁ = (some c, d₂))
    (h₃ : (Stmt.returnIf span inner innermost e).generate.run d₁ = ((), d₃))
    (h₄ : (generateAll behind).run d₃ = ((), d₄))
    (h' : (Stmt.function outer declared annotations
      (before ++ Stmt.returnIf span inner innermost e :: behind)).generate.run d = ((), d'))
    (hwords : ∀ q ∈ c.predicates, q.Worded)
    (hfresh : ∀ q ∈ c.predicates, ∀ s ∈ q.test.scores, s ∉ d₂.fresh d₃)
    (hlists : p.Holds d d₄)
    (hfunction : p.get? ⟨d.options.space, declared.name⟩ =
      d'.pack.program.get? ⟨d.options.space, declared.name⟩)
    (hreach : sequence (function p depth) ((d.pushFrame.pushScope.written d₁).map Order.ofText) w =
      .ok .next v)
    (hprepare : sequence (function p depth) ((d₁.written d₂).map Order.ofText) v = .ok .next v₁)
    (htrue : c.holds v₁ = true)
    (hrun : function p (depth + 1) ⟨d.options.space, declared.name⟩ w = .ok () w') :
    ∃ u, World.Agree (d₂.fresh d₃) v₁ u ∧
      if c.inline v₁ then w' = u
      else commands (function p depth) ((d₃.written d₄).map Order.ofText) u = .ok () w' := by
  obtain ⟨guard, dg, hlower⟩ : ∃ guard dg, (c.lower Line.leave).run d₂ = (guard, dg) := ⟨_, _, rfl⟩
  rw [run_returnIf h₂, hlower] at h₃
  -- the lines of the list, and how the draft grows with them
  obtain ⟨head, ghead⟩ := grows_generateAll before hbefore d.pushFrame.pushScope
  obtain ⟨setup, gsetup⟩ := e.grows_generateCondition d₁
  obtain ⟨tail, gtail⟩ := grows_generateAll behind hbehind d₃
  have gguard := Gen.grows_emitAll guard dg
  rw [h₁] at ghead
  rw [h₂] at gsetup
  rw [h₃] at gguard
  rw [h₄] at gtail
  have glower : d₂.Grows [] dg := Condition.grows_of_lower hlower
  have gbody := ((ghead.trans gsetup).trans (glower.trans gguard)).trans gtail
  have hbody : (generateAll (before ++ Stmt.returnIf span inner innermost e :: behind)).run
      d.pushFrame.pushScope = ((), d₄) := by
    rw [run_generateAll_append, h₁, generateAll, run_bind, run_returnIf h₂, hlower, h₃, h₄]
  have hframes : ∀ {lines d''}, d.pushFrame.pushScope.Grows lines d'' → d''.frames ≠ [] := by
    intro lines d'' hg
    rw [hg.frames]
    exact List.cons_ne_nil _ _
  rw [ghead.written_eq (hframes (.refl _))] at hreach
  rw [gsetup.written_eq (hframes ghead)] at hprepare
  rw [gtail.written_eq (hframes ((ghead.trans gsetup).trans (glower.trans gguard)))]
  -- the run of the list, up to the guarded return
  rw [Pack.get?_program, Pack.function?, functions_generate hname gbody hbody h',
    Table.get?_put_self] at hfunction
  obtain ⟨n, os, f, hn, hos, hs⟩ := function_ok.mp hrun
  obtain rfl : depth = n := by omega
  obtain rfl := Option.some.inj (hos.symm.trans hfunction)
  simp only [List.nil_append, List.append_assoc, List.map_append] at hs
  have hguard := sequence_append_of_next hprepare (sequence_append_of_next hreach hs)
  have hlowering : Lowering p c.predicates d₂ dg := by
    refine ⟨?_, hwords, fun q hq s hqs hm => hfresh q hq s hqs (gguard.fresh_left hm), ?_⟩
    · rw [gsetup.options, ghead.options]
      exact hoptions
    · have hstart : p.Holds d.pushFrame.pushScope d₄ := hlists
      exact (hstart.right (ghead.trans gsetup)).left glower (gguard.trans gtail)
  -- a command that leaves its list has settled every condition
  have hguarded : ∀ {g u}, sequence (function p depth) (guard.map Order.ofText) v₁ = .ok g u →
      g = (if c.inline v₁ then .leave else .next) ∧ World.Agree (d₂.fresh d₃) v₁ u := by
    intro g u hsu
    have hg := Condition.guarded_lower c hlower hlowering (by decide)
      (fun _ _ m _ x y _ hleave => by cases (command_leave_ok hleave).1) hsu
    rw [htrue] at hg
    obtain ⟨hflow, hagree⟩ := guarded_leave hg
    exact ⟨hflow, hagree.mono gguard.fresh_left⟩
  rcases sequence_append_ok.mp hguard with ⟨u, hsu, htail⟩ | ⟨-, hsu⟩
  · obtain ⟨hflow, hagree⟩ := hguarded hsu
    refine ⟨u, hagree, ?_⟩
    cases hinline : c.inline v₁ with
    | true =>
      rw [hinline] at hflow
      cases hflow
    | false => exact commands_ok.mpr ⟨f, htail⟩
  · obtain ⟨hflow, hagree⟩ := hguarded hsu
    refine ⟨w', hagree, ?_⟩
    cases hinline : c.inline v₁ with
    | true => rfl
    | false =>
      rw [hinline] at hflow
      cases hflow

end Body

/-! ## A return under a conjunction -/

namespace LateReturn

def info (kind : Kind) : Info := ⟨.plain kind, ⟨0, 0⟩⟩

def compareX (relation : Relation) (n : Amount) : Expr :=
  .binary (info .condition) (.relate relation) (.name (info .score) "x")
    (.literal (info .int) (.int n))
    (some ⟨.relate relation, .int, .condition, .compareScore relation⟩)

/-- `x == 1 && x > 0` -/
def condition : Expr :=
  .binary (info .condition) .and (compareX .eq 1) (compareX .gt 0)
    (some ⟨.and, .condition, .condition, .conjoin⟩)

def sayText (text : String) : Stmt :=
  .command ⟨0, 0⟩ (.say (.literal (info .string) (.string text)))

/-- `say "p"`, `var x = 1` -/
def before : List Stmt :=
  [sayText "p", .var ⟨0, 0⟩ ⟨"x", ⟨0, 0⟩⟩ (some (.literal (info .int) (.int 1)))
    (some ⟨.assign, .int, .void, .store⟩)]

/-- `say "r"` -/
def behind : List Stmt := [sayText "r"]

end LateReturn

open LateReturn in
/-- `x == 1 && x > 0` holds, but the return stands in a list of its own, and the function says
`"r"`. -/
theorem late_return_runs_behind :
    let d := Draft.empty { }
    let d₁ := ((generateAll before).run d.pushFrame.pushScope).2
    let d₂ := (condition.generateCondition.run.run d₁).2
    let d₃ := ((Stmt.returnIf ⟨0, 0⟩ ⟨0, 0⟩ ⟨0, 0⟩ condition).generate.run d₁).2
    let d₄ := ((generateAll behind).run d₃).2
    let d' := ((Stmt.function ⟨0, 0⟩ ⟨"f", ⟨0, 0⟩⟩ []
      (before ++ Stmt.returnIf ⟨0, 0⟩ ⟨0, 0⟩ ⟨0, 0⟩ condition :: behind)).generate.run d).2
    let p := d'.pack.program
    let v := after (sequence (function p 2)
      ((d.pushFrame.pushScope.written d₁).map Order.ofText)) { }
    let v₁ := after (sequence (function p 2) ((d₁.written d₂).map Order.ofText)) v
    ∃ c, (condition.generateCondition.run.run d₁).1 = some c ∧ c.holds v₁ = true ∧
      c.inline v₁ = false ∧ ∃ u w', function p 3 ⟨"datascript", "f"⟩ { } = .ok () w' ∧
        World.Agree (d₂.fresh d₃) v₁ u ∧
        commands (function p 2) ((d₃.written d₄).map Order.ofText) u = .ok () w' := by
  intro d d₁ d₂ d₃ d₄ d' p v v₁
  have h₁ : (generateAll before).run d.pushFrame.pushScope = ((), d₁) := Prod.ext rfl rfl
  have h₃ : (Stmt.returnIf ⟨0, 0⟩ ⟨0, 0⟩ ⟨0, 0⟩ condition).generate.run d₁ = ((), d₃) :=
    Prod.ext rfl rfl
  have h₄ : (generateAll behind).run d₃ = ((), d₄) := Prod.ext rfl rfl
  have h' : (Stmt.function ⟨0, 0⟩ ⟨"f", ⟨0, 0⟩⟩ [] (before ++
      Stmt.returnIf ⟨0, 0⟩ ⟨0, 0⟩ ⟨0, 0⟩ condition :: behind)).generate.run d = ((), d') :=
    Prod.ext rfl rfl
  have hp : p = d'.pack.program := rfl
  have hreach : sequence (function p 2) ((d.pushFrame.pushScope.written d₁).map Order.ofText) { } =
      .ok .next v := eq_after_of_passes (by decide +kernel)
  have hprepare : sequence (function p 2) ((d₁.written d₂).map Order.ofText) v = .ok .next v₁ :=
    eq_after_of_passes (by decide +kernel)
  obtain ⟨⟨⟩, w', hrun⟩ := exists_of_succeeds (m := function p 3 ⟨"datascript", "f"⟩) (w := { })
    (by decide +kernel)
  let found := (condition.generateCondition.run.run d₁).1
  obtain ⟨c, hc⟩ : ∃ c, found = some c := Option.isSome_iff_exists.mp (by decide +kernel)
  have h₂ : condition.generateCondition.run.run d₁ = (some c, d₂) := Prod.ext hc rfl
  have htrue : found.map (·.holds v₁) = some true := by decide +kernel
  have hlate : found.map (·.inline v₁) = some false := by decide +kernel
  have hwords : ∀ q ∈ (found.map (·.predicates)).getD [], q.Worded := by decide +kernel
  have hread : ∀ q ∈ (found.map (·.predicates)).getD [], ∀ s ∈ q.test.scores,
      s.entry.toList.head? ≠ some '#' := by decide +kernel
  rw [hc] at htrue hlate hwords hread
  have hput : d'.pack.functions = d₄.pack.functions.put ⟨"datascript", "f"⟩
      ((d'.pack.function? ⟨"datascript", "f"⟩).getD []) := by decide +kernel
  have hspace : d.options.generatedDir = "__generated__" := rfl
  clear_value found v₁ v p d' d₄ d₃ d₂ d₁
  have hlists : p.Holds d d₄ := by
    rintro id ⟨purpose, n, -, -, -, rfl⟩
    rw [hp, Pack.get?_program, Pack.get?_program, Pack.function?, hput, Table.get?_put_of_ne]
    · rfl
    · intro h
      have hhead := congrArg (fun id : ResourceId => id.path.toList.head?) h
      simp [Options.list, hspace] at hhead
  obtain ⟨u, hu, hend⟩ := return_stops_iff_inline Options.plain_default (by decide) rfl rfl
    h₁ h₂ h₃ h₄ h' hwords
    (fun q hq s hs hm => hread q hq s hs (Draft.head?_of_mem_fresh hm)) hlists (by rw [hp])
    hreach hprepare (Option.some.inj htrue) hrun
  have hinline : c.inline v₁ = false := Option.some.inj hlate
  rw [hinline] at hend
  exact ⟨c, by rw [h₂], Option.some.inj htrue, hinline, u, w', hrun, hu, hend⟩

/-- **A return under a conjunction does not end its function.** -/
theorem conjunction_does_not_return :
    let source := "function f \x7b\n say \"p\"\n var x = 1\n" ++
      " if (x == 1 && x > 0) \x7b return \x7d\n say \"r\"\n\x7d\n"
    let (pack, report) := compile source { } { }
    let (fault, w) := pack.program.run { } ⟨"datascript", "f"⟩
    report.diagnostics = [] ∧ fault = none ∧ w.output = #["say p", "say r"] := by
  decide +kernel

end Packwright
