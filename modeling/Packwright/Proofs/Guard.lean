import Packwright.Proofs.Generation
import Packwright.Proofs.Lines
import Mathlib.Data.Set.Insert

/-!
# Guarded commands run once

The lines of a condition run a command exactly once where the condition holds, and not at all where
it does not.

* `Condition.holds`: the truth of a condition in a world.
* `Condition.inline`: the command runs in the list of the condition, not in a list behind it.
* `Guarded`: what a run of the lines of a condition did.
* `Condition.guarded_lower`: every run without a fault of the lines of a condition is such a run.
-/

namespace Packwright

open Gen Run Words

/-! ## The truth of a condition -/

/-- The truth of a predicate.  A score that is not set passes no test. -/
def Predicate.holds (w : World) : Predicate → Bool
  | .constant value => value
  | .within s range => (w.score? s).any range.contains
  | .compare l c r =>
    match w.score? l, w.score? r with
    | some a, some b => c.holds a b
    | _, _ => false
  | .entity selector => (w.answers.get? ("entity " ++ selector.text)).getD false
  | .data path => (w.answers.get? ("data " ++ path.text)).getD false

theorem Predicate.outcome_test (w : World) {p : Predicate} (hp : p.isConstant = false) :
    w.outcome p.text p.test = p.holds w := by
  cases p with
  | constant b => cases hp
  | within s r => rfl
  | compare l c r => rfl
  | entity selector => rfl
  | data path => rfl

namespace Condition

mutual

/-- The truth of a condition. -/
def holds (w : World) : Condition → Bool
  | leaf negated p => p.holds w != negated
  | all negated cs => holdsAll w cs != negated
  | any negated cs => holdsAny w cs != negated

/-- Whether all conditions hold. -/
def holdsAll (w : World) : List Condition → Bool
  | [] => true
  | c :: cs => c.holds w && holdsAll w cs

/-- Whether one of the conditions holds. -/
def holdsAny (w : World) : List Condition → Bool
  | [] => false
  | c :: cs => c.holds w || holdsAny w cs

end

mutual

/-- The predicates of a condition. -/
def predicates : Condition → List Predicate
  | leaf _ p => [p]
  | all _ cs => predicatesAll cs
  | any _ cs => predicatesAll cs

/-- The predicates of several conditions. -/
def predicatesAll : List Condition → List Predicate
  | [] => []
  | c :: cs => c.predicates ++ predicatesAll cs

end

/-- The names in the predicates are words. -/
def Worded (ps : List Predicate) : Prop := ∀ p ∈ ps, p.Worded

/-- The predicates read no score of `F`. -/
def Spares (ps : List Predicate) (F : Set Score) : Prop := ∀ p ∈ ps, ∀ s ∈ p.test.scores, s ∉ F

/-- Whether the command of a condition that holds runs in the list of the condition.  Behind the
first child of a conjunction it runs in a list of its own. -/
def inline (w : World) : Condition → Bool
  | all negated (c :: _ :: _) => negated && !c.holds w
  | _ => true

/-- Whether the command stands at two places in the lines. -/
def repeats : Condition → Bool
  | all negated (_ :: _ :: _) => negated
  | _ => false

end Condition

/-! ### Worlds that agree -/

namespace World.Agree

variable {F : Set Score} {w v : World}

theorem holds_predicate (h : Agree F w v) {p : Predicate} (hp : ∀ s ∈ p.test.scores, s ∉ F) :
    p.holds v = p.holds w := by
  cases hc : p.isConstant with
  | true =>
    cases p <;> first | rfl | cases hc
  | false => rw [← p.outcome_test v hc, ← p.outcome_test w hc, h.outcome hp]

open Condition in
mutual

/-- A condition that does not read `F` has one truth in worlds that agree outside of `F`. -/
theorem holds (h : Agree F w v) : ∀ {c : Condition}, Spares c.predicates F → c.holds v = c.holds w
  | leaf negated p, hc => by
    rw [Condition.holds, Condition.holds, h.holds_predicate (hc p (by simp [predicates]))]
  | all negated cs, hc => by
    have hsame : Condition.holdsAll v cs = Condition.holdsAll w cs := holdsAll h hc
    rw [Condition.holds, Condition.holds, hsame]
  | any negated cs, hc => by
    have hsame : Condition.holdsAny v cs = Condition.holdsAny w cs := holdsAny h hc
    rw [Condition.holds, Condition.holds, hsame]

theorem holdsAll (h : Agree F w v) : ∀ {cs : List Condition}, Spares (predicatesAll cs) F →
    Condition.holdsAll v cs = Condition.holdsAll w cs
  | [], _ => rfl
  | c :: cs, hc => by
    have hleft := holds h (c := c) fun p hp => hc p (by simp [predicatesAll, hp])
    have hright : Condition.holdsAll v cs = Condition.holdsAll w cs :=
      holdsAll h fun p hp => hc p (by simp [predicatesAll, hp])
    rw [Condition.holdsAll, Condition.holdsAll, hleft, hright]

theorem holdsAny (h : Agree F w v) : ∀ {cs : List Condition}, Spares (predicatesAll cs) F →
    Condition.holdsAny v cs = Condition.holdsAny w cs
  | [], _ => rfl
  | c :: cs, hc => by
    have hleft := holds h (c := c) fun p hp => hc p (by simp [predicatesAll, hp])
    have hright : Condition.holdsAny v cs = Condition.holdsAny w cs :=
      holdsAny h fun p hp => hc p (by simp [predicatesAll, hp])
    rw [Condition.holdsAny, Condition.holdsAny, hleft, hright]

end

end World.Agree

/-! ## Plain options -/

/-- The names in the options mean nothing to the reader of commands. -/
structure Options.Plain (o : Options) : Prop where
  objective : IsPlain o.objective
  space : IsPlain o.space
  colon : ':' ∉ o.space.toList
  folder : ∀ c ∈ o.generatedDir.toList, isInner c = true

theorem Options.plain_default : Options.Plain { } :=
  ⟨by decide, by decide, by decide, fun _ => isInner_of_mem (by decide)⟩

namespace Options.Plain

variable {o : Options} {purpose : String}

theorem isPlain_temp (hp : Lettered purpose) (n : Nat) : IsPlain (o.temp purpose n).entry := by
  have hmark : IsPlain "#" := by decide
  exact (hmark.append fun c hc => isInner_of_isAlpha (hp c hc)).append fun _ =>
    isInner_of_mem_toString

theorem worded_temp (h : o.Plain) (hp : Lettered purpose) (n : Nat) : (o.temp purpose n).Worded :=
  ⟨(isPlain_temp hp n).isWord, h.objective.isWord⟩

theorem isPlain_list (h : o.Plain) (hp : Lettered purpose) (n : Nat) :
    IsPlain (o.list purpose n).text := by
  have htail : ∀ c ∈ (":" ++ (o.list purpose n).path).toList, isInner c = true := by
    intro c hc
    simp only [Options.list, String.toList_append, List.mem_append] at hc
    rcases hc with hc | (((hc | hc) | hc) | hc) | hc
    · exact isInner_of_mem (by decide) hc
    · exact h.folder c hc
    · exact isInner_of_mem (by decide) hc
    · exact isInner_of_isAlpha (hp c hc)
    · exact isInner_of_mem (by decide) hc
    · exact isInner_of_mem_toString hc
  have hplain := h.space.append htail
  rw [← String.append_assoc] at hplain
  exact hplain

end Options.Plain

theorem ResourceId.ofText_text {id : ResourceId} (h : ':' ∉ id.space.toList) :
    ResourceId.ofText id.text = id := by
  have hchars : id.text.toList = id.space.toList ++ [':'] ++ id.path.toList := by
    simp [ResourceId.text]
  rw [ResourceId.ofText, hchars, splitOnce_append _ h]
  simp

theorem Options.Plain.worded_list {o : Options} (h : o.Plain) {purpose : String}
    (hp : Lettered purpose) (n : Nat) : (o.list purpose n).Worded :=
  ⟨(h.isPlain_list hp n).isWord, ResourceId.ofText_text h.colon⟩

/-! ## Runs of single lines -/

section Lines

variable {callee : ResourceId → Run Unit} {w w' : World} {f : Flow}

theorem command_set_ok {s : Score} (hs : s.Worded) {n : Amount}
    (h : command callee (Order.ofText (Line.set s n)) w = .ok f w') :
    f = .next ∧ w' = w.counted.setScore s n := by
  rw [Order.ofText_set hs] at h
  have ho := (command_ok.mp h).2
  cases ho
  exact ⟨rfl, rfl⟩

theorem command_test_ok {t : Test} {text : String} {o : Order} {negated : Bool}
    (h : command callee (.guard (!negated) t text (.run o)) w = .ok f w') :
    (w.outcome text t = !negated ∧ command callee o (w.counted.evaluated text) = .ok f w') ∨
      (w.outcome text t = negated ∧ f = .next ∧ w' = w.counted.evaluated text) := by
  have ho := (command_ok.mp h).2
  have hsame : w.counted.outcome text t = w.outcome text t :=
    (World.Agree.counted ∅ w).outcome (fun _ _ => Set.notMem_empty _) text
  rw [order_guard, hsame] at ho
  split at ho
  · rename_i htest
    exact Or.inl ⟨htest, ho⟩
  · rename_i htest
    cases ho
    exact Or.inr ⟨by simpa using htest, rfl, rfl⟩

theorem command_guard_passed {p : Predicate} (hc : p.isConstant = false) (hp : p.Worded)
    {run : String} {negated : Bool}
    (h : command callee (Order.ofText (Line.guard negated p run)) w = .ok f w') :
    (p.holds w = !negated ∧
        command callee (Order.passed run) (w.counted.evaluated p.text) = .ok f w') ∨
      (p.holds w = negated ∧ f = .next ∧ w' = w.counted.evaluated p.text) := by
  rw [Order.ofText_guard_passed hc hp] at h
  have ht := command_test_ok h
  rw [p.outcome_test w hc] at ht
  exact ht

/-- A guarded command runs if the predicate is on the side of the guard. -/
theorem command_guard_ok {p : Predicate} (hc : p.isConstant = false) (hp : p.Worded) {run : String}
    (hr : Joined run) {negated : Bool}
    (h : command callee (Order.ofText (Line.guard negated p run)) w = .ok f w') :
    (p.holds w = !negated ∧
        command callee (Order.ofText run) (w.counted.evaluated p.text) = .ok f w') ∨
      (p.holds w = negated ∧ f = .next ∧ w' = w.counted.evaluated p.text) := by
  have hg := command_guard_passed hc hp h
  rw [Order.passed_of_joined hr] at hg
  exact hg

theorem contains_exactly (n m : Amount) : (Range.exactly n).contains m = decide (m = n) := by
  have hiff : (n.toInt ≤ m.toInt ∧ m.toInt ≤ n.toInt) ↔ m = n := by
    rw [← BitVec.toInt_inj]
    omega
  simp [Range.exactly, Range.contains, ← hiff, Bool.decide_and]

theorem command_guardAmount_passed {s : Score} (hs : s.Worded) {n : Amount} {run : String}
    {negated : Bool}
    (h : command callee (Order.ofText (Line.guardAmount negated s n run)) w = .ok f w') :
    (decide (w.score? s = some n) = !negated ∧ command callee (Order.passed run)
        (w.counted.evaluated (Order.amountText s n)) = .ok f w') ∨
      (decide (w.score? s = some n) = negated ∧ f = .next ∧
        w' = w.counted.evaluated (Order.amountText s n)) := by
  rw [Order.ofText_guardAmount_passed hs n] at h
  have ht := command_test_ok h
  have hout : w.outcome (Order.amountText s n) (.within s (.exactly n)) =
      decide (w.score? s = some n) := by
    rw [World.outcome]
    cases w.score? s with
    | none => rfl
    | some m => simp [contains_exactly]
  rw [hout] at ht
  exact ht

/-- A command under a flag runs if the flag has the amount. -/
theorem command_guardAmount_ok {s : Score} (hs : s.Worded) {n : Amount} {run : String}
    (hr : Joined run) {negated : Bool}
    (h : command callee (Order.ofText (Line.guardAmount negated s n run)) w = .ok f w') :
    (decide (w.score? s = some n) = !negated ∧ command callee (Order.ofText run)
        (w.counted.evaluated (Order.amountText s n)) = .ok f w') ∨
      (decide (w.score? s = some n) = negated ∧ f = .next ∧
        w' = w.counted.evaluated (Order.amountText s n)) := by
  have hg := command_guardAmount_passed hs h
  rw [Order.passed_of_joined hr] at hg
  exact hg

/-- A flag with the amount lets the command run. -/
theorem command_flag_pass {s : Score} (hs : s.Worded) {n : Amount} {run : String} (hr : Joined run)
    (hn : w.score? s = some n)
    (h : command callee (Order.ofText (Line.guardAmount false s n run)) w = .ok f w') :
    command callee (Order.ofText run) (w.counted.evaluated (Order.amountText s n)) = .ok f w' := by
  rcases command_guardAmount_ok hs hr h with ⟨-, hrun⟩ | ⟨hstop, -⟩
  · exact hrun
  · rw [hn] at hstop
    simp at hstop

/-- A flag with another amount does not. -/
theorem command_flag_stop {s : Score} (hs : s.Worded) {n : Amount} {run : String} (hr : Joined run)
    (hn : w.score? s ≠ some n)
    (h : command callee (Order.ofText (Line.guardAmount false s n run)) w = .ok f w') :
    f = .next ∧ w' = w.counted.evaluated (Order.amountText s n) := by
  rcases command_guardAmount_ok hs hr h with ⟨hpass, -⟩ | ⟨-, hnext⟩
  · exact absurd (by simpa using hpass) hn
  · exact hnext

end Lines

/-! ## What a run of guarded lines did -/

/-- A run of the lines that guard an order.  If the condition is true, the order was carried out
once in a world that agrees with the first one, and what came before and behind it changed scores of
`F` only.  `inline` says whether the flow of the order is that of the lines. -/
def Guarded (p : Program) (depth : Nat) (F : Set Score) (o : Order) (truth inline : Bool)
    (w : World) (f : Flow) (w' : World) : Prop :=
  if truth then
    ∃ n g u v, n ≤ depth ∧ World.Agree F w u ∧ w.executed ≤ u.executed ∧
      command (function p n) o u = .ok g v ∧ World.Agree F v w' ∧ f = if inline then g else .next
  else f = .next ∧ World.Agree F w w'

section Flags

variable {p : Program} {depth : Nat} {F : Set Score} {flag : Score} {w w' : World} {f : Flow}

/-- Guarded lines that raise a flag leave it raised if the condition was true. -/
theorem Guarded.raise {truth inline : Bool} (hworded : flag.Worded) (hflag : flag ∉ F)
    (h : Guarded p depth F (Order.ofText (Line.set flag 1)) truth inline w f w') :
    f = .next ∧ World.Agree (insert flag F) w w' ∧
      w'.score? flag = if truth then some 1 else w.score? flag := by
  have hF : F ⊆ insert flag F := Set.subset_insert flag F
  cases truth with
  | false =>
    obtain ⟨rfl, hagree⟩ : f = .next ∧ World.Agree F w w' := h
    exact ⟨rfl, hagree.mono hF, hagree.score flag hflag⟩
  | true =>
    obtain ⟨n, g, u, v, -, hu, -, hc, hv, rfl⟩ : ∃ n g u v, n ≤ depth ∧ World.Agree F w u ∧
      w.executed ≤ u.executed ∧
      command (function p n) (Order.ofText (Line.set flag 1)) u = .ok g v ∧
      World.Agree F v w' ∧ f = if inline then g else .next := h
    obtain ⟨rfl, rfl⟩ := command_set_ok hworded hc
    have hset : World.Agree (insert flag F) u (u.counted.setScore flag 1) :=
      (World.Agree.counted _ u).trans (.setScore (Set.mem_insert flag F) _ 1)
    refine ⟨by simp, (hu.mono hF).trans (hset.trans (hv.mono hF)), ?_⟩
    rw [hv.score flag hflag, World.score?_setScore, if_pos rfl]
    rfl

theorem Guarded.before {o : Order} {truth inline : Bool} {v : World} (hv : World.Agree F w v)
    (hle : w.executed ≤ v.executed) (h : Guarded p depth F o truth inline v f w') :
    Guarded p depth F o truth inline w f w' := by
  cases truth with
  | false => exact ⟨h.1, hv.trans h.2⟩
  | true =>
    obtain ⟨n, g, u, v', hn, hu, hle', hrest⟩ := h
    exact ⟨n, g, u, v', hn, hv.trans hu, hle.trans hle', hrest⟩

/-- A flag that is taken down and then raised by tests shows the truth of what they test. -/
theorem sequence_tested_ok {tests : List String} {truth : Bool} (hworded : flag.Worded)
    (hflag : flag ∈ F)
    (htests : ∀ u v g, World.Agree F w u →
      sequence (function p depth) (tests.map Order.ofText) u = .ok g v →
        g = .next ∧ World.Agree F u v ∧ v.score? flag = if truth then some 1 else u.score? flag)
    (h : sequence (function p depth) ((Line.set flag 0 :: tests).map Order.ofText) w = .ok f w') :
    f = .next ∧ World.Agree F w w' ∧ w.executed ≤ w'.executed ∧
      w'.score? flag = some (if truth then 1 else 0) := by
  have hle := sequence_executed (function_executed p depth) h
  rw [List.map_cons] at h
  rcases sequence_cons_ok.mp h with ⟨u, hc, hs⟩ | ⟨-, hc⟩
  · obtain ⟨-, rfl⟩ := command_set_ok hworded hc
    have hset : World.Agree F w (w.counted.setScore flag 0) :=
      (World.Agree.counted _ w).trans (.setScore hflag _ 0)
    obtain ⟨rfl, hagree, hscore⟩ := htests _ _ _ hset hs
    refine ⟨rfl, hset.trans hagree, hle, ?_⟩
    rw [hscore, World.score?_setScore, if_pos rfl]
    cases truth <;> rfl
  · cases (command_set_ok hworded hc).1

/-- A flag that shows the truth of what was tested guards the command. -/
theorem guarded_flag {tests : List String} {run : String} {truth negated : Bool}
    (hworded : flag.Worded) (hflag : flag ∈ F) (hr : Joined run)
    (htests : ∀ u v g, World.Agree F w u →
      sequence (function p depth) (tests.map Order.ofText) u = .ok g v →
        g = .next ∧ World.Agree F u v ∧ v.score? flag = if truth then some 1 else u.score? flag)
    (h : sequence (function p depth) ((Line.set flag 0 :: tests ++
      [Line.guardAmount false flag (if negated then 0 else 1) run]).map Order.ofText) w =
        .ok f w') :
    Guarded p depth F (Order.ofText run) (truth != negated) true w f w' := by
  rw [List.map_append] at h
  rcases sequence_append_ok.mp h with ⟨v, hs, hlast⟩ | ⟨-, hs⟩
  · obtain ⟨-, hagree, hle, hscore⟩ := sequence_tested_ok hworded hflag htests hs
    have hpass : decide (v.score? flag = some (if negated then 0 else 1)) = (truth != negated) := by
      rw [hscore]
      cases truth <;> cases negated <;> decide
    have hev : World.Agree F w (v.counted.evaluated (Order.amountText flag
        (if negated then 0 else 1))) :=
      hagree.trans ((World.Agree.counted F v).trans (.evaluated F _ _))
    rcases command_guardAmount_ok hworded hr (sequence_singleton_ok.mp hlast) with
      ⟨htrue, hrun⟩ | ⟨hfalse, rfl, rfl⟩
    · rw [← hpass, htrue]
      exact ⟨depth, f, _, w', le_rfl, hev, by simp; omega, hrun, .refl F w', rfl⟩
    · rw [← hpass, hfalse]
      exact ⟨rfl, hev⟩
  · cases (sequence_tested_ok hworded hflag htests hs).1

end Flags

/-! ## The lines of a condition -/

namespace Condition

variable {c : Condition} {cs : List Condition} {run : String} {negated : Bool} {d d' : Draft}
  {lines : List String}

theorem lower_leaf {q : Predicate} (hq : q.isConstant = false) (negated : Bool) (run : String)
    (d : Draft) : ((leaf negated q).lower run).run d = ([Line.guard negated q run], d) := by
  cases q with
  | constant value => cases hq
  | within s r => rfl
  | compare l c r => rfl
  | entity s => rfl
  | data path => rfl

/-- A constant is decided while the lines are written. -/
theorem lower_constant {q : Predicate} (hq : q.isConstant = true) (negated : Bool) (run : String)
    (d : Draft) (w : World) : ((leaf negated q).lower run).run d =
      (if (leaf negated q).holds w then [run] else [], d) := by
  cases q with
  | constant value => cases value <;> cases negated <;> rfl
  | _ => cases hq

/-- A disjunction raises a flag for each child and tests it at the end. -/
theorem lower_any_cases (h : (lower (any negated (c :: cs)) run).run d = (lines, d')) :
    ∃ tests, (lowerEach (c :: cs) (Line.set (d.options.temp "or" (d.count (.temp "or"))) 1)).run
        (d.draw (.temp "or")) = (tests, d') ∧
      lines = Line.set (d.options.temp "or" (d.count (.temp "or"))) 0 :: tests ++
        [Line.guardAmount false (d.options.temp "or" (d.count (.temp "or")))
          (if negated then 0 else 1) run] := by
  rw [lower, if_neg (by simp), run_bind, run_temp, run_bind] at h
  obtain ⟨hlines, hd⟩ := Prod.mk.inj h
  exact ⟨_, Prod.ext rfl hd, hlines.symm⟩

theorem lowerEach_cons_cases (h : (lowerEach (c :: cs) run).run d = (lines, d')) :
    ∃ first d₁ rest, (c.lower run).run d = (first, d₁) ∧ (lowerEach cs run).run d₁ = (rest, d') ∧
      lines = first ++ rest := by
  rw [lowerEach, run_bind, run_bind] at h
  obtain ⟨hlines, hd⟩ := Prod.mk.inj h
  exact ⟨_, _, _, Prod.ext rfl rfl, Prod.ext rfl hd, hlines.symm⟩

/-- A conjunction of one child tests it into a flag. -/
theorem lowerAll_single_cases (h : (lowerAll negated [c] run).run d = (lines, d')) :
    ∃ first, (c.lower (Line.set (d.options.temp "and" (d.count (.temp "and"))) 1)).run
        (d.draw (.temp "and")) = (first, d') ∧
      lines = Line.set (d.options.temp "and" (d.count (.temp "and"))) 0 :: first ++
        [Line.guardAmount false (d.options.temp "and" (d.count (.temp "and")))
          (if negated then 0 else 1) run] := by
  rw [lowerAll, run_bind, run_temp, run_bind] at h
  obtain ⟨hlines, hd⟩ := Prod.mk.inj h
  exact ⟨_, Prod.ext rfl hd, hlines.symm⟩

theorem lowerAll_ne_nil (h : (lowerAll negated (c :: cs) run).run d = (lines, d')) :
    lines ≠ [] := by
  rw [lowerAll, run_bind, run_temp, run_bind] at h
  dsimp only at h
  split at h
  · obtain ⟨rfl, -⟩ := Prod.mk.inj h
    simp
  · rw [run_bind] at h
    split at h
    · obtain ⟨rfl, -⟩ := Prod.mk.inj h
      simp
    · rw [run_bind] at h
      obtain ⟨rfl, -⟩ := Prod.mk.inj h
      simp

/-- A conjunction of several children tests the first one into a flag, and the others in a list of
their own that runs under the flag. -/
theorem lowerAll_cons_cases {c' : Condition}
    (h : (lowerAll negated (c :: c' :: cs) run).run d = (lines, d')) :
    ∃ first d₂ rest d₃, (c.lower (Line.set (d.options.temp "and" (d.count (.temp "and"))) 1)).run
        (d.draw (.temp "and")) = (first, d₂) ∧
      (lowerAll negated (c' :: cs) run).run d₂ = (rest, d₃) ∧ d' = d₃.withList "and" rest ∧
      lines = Line.set (d.options.temp "and" (d.count (.temp "and"))) 0 :: first ++
        ((if negated then
            [Line.guardAmount false (d.options.temp "and" (d.count (.temp "and"))) 0 run]
          else []) ++
        [Line.guardAmount false (d.options.temp "and" (d.count (.temp "and"))) 1
          (Line.call (d₃.options.list "and" (d₃.count (.list "and"))))]) := by
  obtain ⟨first, d₂, hfirst⟩ : ∃ first d₂,
      (c.lower (Line.set (d.options.temp "and" (d.count (.temp "and"))) 1)).run
        (d.draw (.temp "and")) = (first, d₂) := ⟨_, _, rfl⟩
  obtain ⟨rest, d₃, hrest⟩ : ∃ rest d₃, (lowerAll negated (c' :: cs) run).run d₂ = (rest, d₃) :=
    ⟨_, _, rfl⟩
  rw [lowerAll, run_bind, run_temp, run_bind, hfirst] at h
  dsimp only at h
  rw [if_neg (by simp), run_bind, hrest, if_neg (by simpa using lowerAll_ne_nil hrest), run_bind,
    run_synthesize] at h
  obtain ⟨hlines, hd⟩ := Prod.mk.inj h
  refine ⟨first, d₂, rest, d₃, hfirst, hrest, hd.symm, ?_⟩
  rw [← hlines]
  simp only [List.append_assoc]

end Condition

/-! ## Runs of the lines of a condition -/

/-- A list for a purpose is found under its name. -/
theorem Program.Holds.get?_list {p : Program} {d : Draft} {purpose : String} {lines : List String}
    (hp : p.Holds d (d.withList purpose lines)) (hl : Lettered purpose) :
    p.get? (d.options.list purpose (d.count (.list purpose))) = some (lines.map Order.ofText) := by
  have hcount : (d.withList purpose lines).count (.list purpose) = d.count (.list purpose) + 1 := by
    show (d.draw (.list purpose)).count (.list purpose) = _
    rw [Draft.count_draw, if_pos rfl]
  rw [hp _ ⟨purpose, _, hl, le_rfl, by omega, rfl⟩, Pack.get?_program]
  show ((d.pack.functions.put _ lines).get? _).map _ = _
  rw [Table.get?_put_self]
  rfl

/-- What a condition and a program must be like for the lines between two drafts: the names in its
predicates are words, no predicate reads a score that was drawn in between, and the program holds
the lists that were added in between. -/
structure Lowering (p : Program) (ps : List Predicate) (d d' : Draft) : Prop where
  plain : d.options.Plain
  worded : Condition.Worded ps
  spares : Condition.Spares ps (d.fresh d')
  holds : p.Holds d d'

theorem Lowering.sub {p : Program} {ps ps' : List Predicate} {d d₁ d₂ d' : Draft}
    {l l' l'' : List String} (h : Lowering p ps d d') (hps : ps' ⊆ ps) (h₁ : d.Grows l d₁)
    (h₂ : d₁.Grows l' d₂) (h₃ : d₂.Grows l'' d') : Lowering p ps' d₁ d₂ := by
  refine ⟨by rw [h₁.options]; exact h.plain, fun q hq => h.worded q (hps hq), ?_,
    (h.holds.right h₁).left h₂ h₃⟩
  intro q hq s hs hfresh
  exact h.spares q (hps hq) s hs (h₁.fresh_right (h₃.fresh_left hfresh))

/-- Where the order has been carried out and the list goes on, it has left the scores of `F` as they
were, or the condition is false now. -/
def Settles (p : Program) (depth : Nat) (F : Set Score) (c : Condition) (o : Order) (w : World) :
    Prop :=
  ∀ n ≤ depth, ∀ u v, World.Agree F w u → command (function p n) o u = .ok .next v →
    (∀ s ∈ F, v.score? s = u.score? s) ∨ c.holds v = false

namespace Draft

theorem mem_fresh_draw {d d' : Draft} {lines : List String} {purpose : String}
    (hp : Lettered purpose) (h : (d.draw (.temp purpose)).Grows lines d') :
    d.options.temp purpose (d.count (.temp purpose)) ∈ d.fresh d' := by
  refine ⟨purpose, _, hp, le_rfl, ?_, rfl⟩
  have hcount := h.count (.temp purpose)
  rw [count_draw, if_pos rfl] at hcount
  omega

theorem not_mem_fresh_draw {d d' : Draft} {purpose : String} (hp : Lettered purpose) :
    d.options.temp purpose (d.count (.temp purpose)) ∉ (d.draw (.temp purpose)).fresh d' :=
  (Grows.draw d (.temp purpose)).fresh_disjoint (mem_fresh_draw hp (.refl _))

end Draft

namespace Condition

variable {p : Program}

theorem grows_of_lower {c : Condition} {run : String} {d d' : Draft} {lines : List String}
    (h : (c.lower run).run d = (lines, d')) : d.Grows [] d' := by
  have := (c.silent_lower run).grow d
  rw [h] at this
  exact this

theorem scopes_of_lower {c : Condition} {run : String} {d d' : Draft} {lines : List String}
    (h : (c.lower run).run d = (lines, d')) : d'.scopes = d.scopes := by
  have := (c.silent_lower run).scopes d
  rw [h] at this
  exact this

theorem grows_of_lowerEach {cs : List Condition} {run : String} {d d' : Draft}
    {lines : List String} (h : (lowerEach cs run).run d = (lines, d')) : d.Grows [] d' := by
  have := (silent_lowerEach cs run).grow d
  rw [h] at this
  exact this

theorem grows_of_lowerAll {negated : Bool} {cs : List Condition} {run : String} {d d' : Draft}
    {lines : List String} (h : (lowerAll negated cs run).run d = (lines, d')) : d.Grows [] d' := by
  have := (silent_lowerAll negated cs run).grow d
  rw [h] at this
  exact this

/-- A command that stands alone. -/
theorem guarded_alone {depth : Nat} {F : Set Score} {run : String} {w w' : World} {f : Flow}
    (h : sequence (function p depth) ([run].map Order.ofText) w = .ok f w') :
    Guarded p depth F (Order.ofText run) true true w f w' :=
  ⟨depth, f, w, w', le_rfl, .refl F w, le_rfl, sequence_singleton_ok.mp h, .refl F w', rfl⟩

/-- No line at all. -/
theorem guarded_nothing {depth : Nat} {F : Set Score} {o : Order} {inline : Bool} {w w' : World}
    {f : Flow} (h : sequence (function p depth) [] w = .ok f w') :
    Guarded p depth F o false inline w f w' := by
  obtain ⟨rfl, rfl⟩ := sequence_nil_ok.mp h
  exact ⟨rfl, .refl F _⟩

/-- A guard with a predicate. -/
theorem guarded_leaf {depth : Nat} {F : Set Score} {q : Predicate} (hc : q.isConstant = false)
    (hq : q.Worded) {run : String} (hr : Joined run) {negated : Bool} {w w' : World} {f : Flow}
    (h : sequence (function p depth) ([Line.guard negated q run].map Order.ofText) w = .ok f w') :
    Guarded p depth F (Order.ofText run) ((leaf negated q).holds w) true w f w' := by
  have hev : World.Agree F w (w.counted.evaluated q.text) :=
    (World.Agree.counted F w).trans (.evaluated F _ _)
  rcases command_guard_ok hc hq hr (sequence_singleton_ok.mp h) with
    ⟨htrue, hrun⟩ | ⟨hfalse, rfl, rfl⟩
  · rw [holds, htrue]
    have hside : ((!negated) != negated) = true := by cases negated <;> rfl
    rw [hside]
    exact ⟨depth, f, _, w', le_rfl, hev, by simp, hrun, .refl F w', rfl⟩
  · rw [holds, hfalse]
    have hside : (negated != negated) = false := by cases negated <;> rfl
    rw [hside]
    exact ⟨rfl, hev⟩

theorem settles_raise {depth : Nat} {F : Set Score} {c : Condition} {flag : Score}
    (hworded : flag.Worded) (hflag : flag ∉ F) (w : World) :
    Settles p depth F c (Order.ofText (Line.set flag 1)) w := by
  intro n _ u v _ h
  obtain ⟨-, rfl⟩ := command_set_ok hworded h
  refine Or.inl fun s hs => ?_
  rw [World.score?_setScore, if_neg]
  · rfl
  · rintro rfl
    exact hflag hs

/-- What settles a negated conjunction settles it without its first child. -/
theorem Settles.tail {depth n : Nat} {F G : Set Score} {c : Condition} {cs : List Condition}
    {o : Order} {w u : World} (h : Settles p depth F (all true (c :: cs)) o w) (hn : n ≤ depth)
    (hG : G ⊆ F) (hu : World.Agree F w u) : Settles p n G (all true cs) o u := by
  intro m hm u' v hu' hrun
  rcases h m (hm.trans hn) u' v (hu.trans (hu'.mono hG)) hrun with hsame | hfalse
  · exact Or.inl fun s hs => hsame s (hG hs)
  · right
    rw [holds, holdsAll] at hfalse
    rw [holds]
    revert hfalse
    cases c.holds v <;> cases holdsAll v cs <;> simp

section Conjunction

variable {depth : Nat} {F G : Set Score} {flag : Score} {id : ResourceId} {rest : List String}
  {o : Order} {negated : Bool} {c c' : Condition} {cs : List Condition}

/-- The last line of a conjunction of several children, with the flag raised: the list with the
others runs. -/
theorem guarded_others {v w' : World} {f : Flow} (hflag : flag.Worded) (hid : id.Worded)
    (hget : p.get? id = some (rest.map Order.ofText)) (hG : G ⊆ F)
    (hspares : Spares (predicatesAll (c' :: cs)) F)
    (hrest : ∀ n u g w', ((all negated (c' :: cs)).repeats = true →
        (all negated (c' :: cs)).holds u = true → Settles p n G (all negated (c' :: cs)) o u) →
      sequence (function p n) (rest.map Order.ofText) u = .ok g w' →
        Guarded p n G o ((all negated (c' :: cs)).holds u) ((all negated (c' :: cs)).inline u) u g
          w')
    (hsettle : negated = true → (all true (c' :: cs)).holds v = true →
      Settles p depth F (all true (c :: c' :: cs)) o v)
    (hone : v.score? flag = some 1)
    (h : command (function p depth)
      (Order.ofText (Line.guardAmount false flag 1 (Line.call id))) v = .ok f w') :
    Guarded p depth F o ((all negated (c' :: cs)).holds v) false v f w' := by
  have hcall := command_flag_pass hflag (Line.joined_call hid) hone h
  rw [Order.ofText_call hid] at hcall
  obtain ⟨rfl, hfun⟩ := order_call_ok.mp (command_ok.mp hcall).2
  obtain ⟨n, os, g, rfl, hos, hs⟩ := function_ok.mp hfun
  obtain rfl : os = rest.map Order.ofText := Option.some.inj (hos.symm.trans hget)
  have hu : World.Agree F v (v.counted.evaluated (Order.amountText flag 1)).counted :=
    ((World.Agree.counted F v).trans (.evaluated F _ _)).trans (.counted F _)
  have hsame := hu.holds (c := all negated (c' :: cs)) hspares
  have hg := hrest n _ g w' (fun hrep htrue => ?_) hs
  · rw [hsame] at hg
    cases htruth : (all negated (c' :: cs)).holds v with
    | false =>
      rw [htruth] at hg
      exact ⟨rfl, hu.trans (hg.2.mono hG)⟩
    | true =>
      rw [htruth] at hg
      obtain ⟨m, g', u', v', hm, hu', hle, hrun, hv', -⟩ := hg
      refine ⟨m, g', u', v', by omega, hu.trans (hu'.mono hG), ?_, hrun, hv'.mono hG, rfl⟩
      simp only [World.executed_counted, World.executed_evaluated] at hle
      omega
  · -- only a negated conjunction of two and more repeats its command
    obtain rfl : negated = true := by
      cases cs with
      | nil => cases hrep
      | cons _ _ => exact hrep
    rw [hsame] at htrue
    exact Settles.tail (hsettle rfl htrue) (Nat.le_succ n) hG hu

/-- The lines behind the test of the first child of a conjunction of several.  The flag shows the
truth of that child. -/
theorem guarded_conjunction {run : String} {w v w' : World} {f : Flow} (hflag : flag.Worded)
    (hmem : flag ∈ F) (hr : Joined run) (hid : id.Worded)
    (hget : p.get? id = some (rest.map Order.ofText)) (hG : G ⊆ F)
    (hspares : Spares (predicatesAll (c' :: cs)) F)
    (hrest : ∀ n u g w', ((all negated (c' :: cs)).repeats = true →
        (all negated (c' :: cs)).holds u = true →
          Settles p n G (all negated (c' :: cs)) (Order.ofText run) u) →
      sequence (function p n) (rest.map Order.ofText) u = .ok g w' →
        Guarded p n G (Order.ofText run) ((all negated (c' :: cs)).holds u)
          ((all negated (c' :: cs)).inline u) u g w')
    (hsettle : negated = true → (all true (c :: c' :: cs)).holds w = true →
      Settles p depth F (all true (c :: c' :: cs)) (Order.ofText run) w)
    (hv : World.Agree F w v) (hle : w.executed ≤ v.executed)
    (hscore : v.score? flag = some (if c.holds w then 1 else 0))
    (h : sequence (function p depth)
      (((if negated then [Line.guardAmount false flag 0 run] else []) ++
        [Line.guardAmount false flag 1 (Line.call id)]).map Order.ofText) v = .ok f w') :
    Guarded p depth F (Order.ofText run) ((all negated (c :: c' :: cs)).holds w)
      ((all negated (c :: c' :: cs)).inline w) w f w' := by
  have hzero : (0 : Amount) ≠ 1 := by decide
  have hjoined := Line.joined_call hid
  have hev : ∀ n u, World.Agree F u (u.counted.evaluated (Order.amountText flag n)) := fun n u =>
    (World.Agree.counted F u).trans (.evaluated F _ _)
  -- the last line, where the first child holds
  have hothers : ∀ {u}, World.Agree F w u → w.executed ≤ u.executed → c.holds w = true →
      u.score? flag = some 1 → command (function p depth)
        (Order.ofText (Line.guardAmount false flag 1 (Line.call id))) u = .ok f w' →
      Guarded p depth F (Order.ofText run) ((all negated (c' :: cs)).holds w) false w f w' := by
    intro u hu hle hc hone hcmd
    have hsame := hu.holds (c := all negated (c' :: cs)) hspares
    have hg := guarded_others (c := c) hflag hid hget hG hspares hrest ?_ hone hcmd
    · rw [hsame] at hg
      exact hg.before hu hle
    · rintro rfl htrue n hn x y hx
      refine hsettle rfl ?_ n hn x y (hu.trans hx)
      rw [hsame] at htrue
      rw [holds, holdsAll, hc]
      exact htrue
  cases hc : c.holds w with
  | true =>
    have htruth : (all negated (c :: c' :: cs)).holds w = (all negated (c' :: cs)).holds w := by
      rw [holds, holds, holdsAll, hc, Bool.true_and]
    have hinline : (all negated (c :: c' :: cs)).inline w = false := by simp [inline, hc]
    have hone : v.score? flag = some 1 := by rw [hscore, hc]; rfl
    rw [htruth, hinline]
    cases negated with
    | false => exact hothers hv hle hc hone (sequence_singleton_ok.mp h)
    | true =>
      have hne : v.score? flag ≠ some 0 := by
        rw [hone]
        exact fun h => hzero (Option.some.inj h).symm
      rcases sequence_cons_ok.mp h with ⟨u, hcmd, hlast⟩ | ⟨-, hcmd⟩
      · obtain ⟨-, rfl⟩ := command_flag_stop hflag hr hne hcmd
        exact hothers (hv.trans (hev 0 v)) (by simp; omega) hc hone (sequence_singleton_ok.mp hlast)
      · cases (command_flag_stop hflag hr hne hcmd).1
  | false =>
    have htruth : (all negated (c :: c' :: cs)).holds w = negated := by simp [holds, holdsAll, hc]
    have hinline : (all negated (c :: c' :: cs)).inline w = negated := by simp [inline, hc]
    have hnone : v.score? flag = some 0 := by rw [hscore, hc]; rfl
    have hne : v.score? flag ≠ some 1 := by
      rw [hnone]
      exact fun h => hzero (Option.some.inj h)
    rw [htruth, hinline]
    cases negated with
    | false =>
      obtain ⟨rfl, rfl⟩ := command_flag_stop hflag hjoined hne (sequence_singleton_ok.mp h)
      exact ⟨rfl, hv.trans (hev 1 v)⟩
    | true =>
      rcases sequence_cons_ok.mp h with ⟨u, hcmd, hlast⟩ | ⟨rfl, hcmd⟩
      · have hrun := command_flag_pass hflag hr hnone hcmd
        have hcall := sequence_singleton_ok.mp hlast
        have hstay : f = .next ∧ World.Agree F u w' := by
          by_cases hone : u.score? flag = some 1
          · -- the command has raised the flag, but no child fails any more
            have hfalse : (all true (c :: c' :: cs)).holds u = false := by
              rcases hsettle rfl htruth depth le_rfl _ u (hv.trans (hev 0 v)) hrun with
                hsame | hfalse
              · exact absurd ((hsame flag hmem).symm.trans hone) hne
              · exact hfalse
            have hfalse' : (all true (c' :: cs)).holds u = false := by
              rw [holds, holdsAll] at hfalse
              rw [holds]
              revert hfalse
              cases c.holds u <;> simp
            have hg := guarded_others (c := c) hflag hid hget hG hspares hrest
              (fun _ htrue => by rw [hfalse'] at htrue; cases htrue) hone hcall
            rw [hfalse'] at hg
            exact hg
          · obtain ⟨rfl, rfl⟩ := command_flag_stop hflag hjoined hone hcall
            exact ⟨rfl, hev 1 u⟩
        obtain ⟨rfl, hw'⟩ := hstay
        exact ⟨depth, .next, _, u, le_rfl, hv.trans (hev 0 v), by simp; omega, hrun, hw', rfl⟩
      · exact ⟨depth, .leave, _, w', le_rfl, hv.trans (hev 0 v), by simp; omega,
          command_flag_pass hflag hr hnone hcmd, .refl F w', rfl⟩

end Conjunction

mutual

/-- **Lowered conditions guard their command.**  A run without a fault of the lines carried the
command out once if the condition held at the beginning, and not at all if it did not. -/
theorem guarded_lower : ∀ (c : Condition) {run : String} {d d' : Draft} {lines : List String},
    (c.lower run).run d = (lines, d') → Lowering p c.predicates d d' → Joined run →
    ∀ {depth : Nat} {w w' : World} {f : Flow},
      (c.repeats = true → c.holds w = true →
        Settles p depth (d.fresh d') c (Order.ofText run) w) →
      sequence (function p depth) (lines.map Order.ofText) w = .ok f w' →
      Guarded p depth (d.fresh d') (Order.ofText run) (c.holds w) (c.inline w) w f w'
  | leaf negated q, run, d, d', lines, hlower, hl, hr, depth, w, w', f, _, h => by
    cases hc : q.isConstant with
    | false =>
      obtain ⟨rfl, -⟩ := Prod.mk.inj ((lower_leaf hc negated run d).symm.trans hlower)
      exact guarded_leaf hc (hl.worded _ (by simp [predicates])) hr h
    | true =>
      obtain ⟨rfl, -⟩ := Prod.mk.inj ((lower_constant hc negated run d w).symm.trans hlower)
      cases htruth : (leaf negated q).holds w with
      | false =>
        rw [htruth] at h
        exact guarded_nothing h
      | true =>
        rw [htruth] at h
        exact guarded_alone h
  | all negated cs, run, d, d', lines, hlower, hl, hr, depth, w, w', f, hsettle, h =>
    guarded_lowerAll negated cs hlower hl hr hsettle h
  | any negated [], run, d, d', lines, hlower, hl, hr, depth, w, w', f, _, h => by
    obtain ⟨rfl, -⟩ := Prod.mk.inj hlower
    cases negated with
    | true => exact guarded_alone h
    | false => exact guarded_nothing h
  | any negated (c :: cs), run, d, d', lines, hlower, hl, hr, depth, w, w', f, _, h => by
    obtain ⟨tests, heach, rfl⟩ := lower_any_cases hlower
    have hor : Lettered "or" := by decide
    have hdraw := Draft.Grows.draw d (.temp "or")
    have hgrows := grows_of_lowerEach heach
    have hworded := hl.plain.worded_temp hor (d.count (.temp "or"))
    have hmem := Draft.mem_fresh_draw hor hgrows
    refine guarded_flag hworded hmem hr (fun u v g hu hs => ?_) h
    have hspares : Spares (predicatesAll (c :: cs))
        {d.options.temp "or" (d.count (.temp "or"))} := by
      rintro q hq s hs rfl
      exact hl.spares q hq _ hs hmem
    obtain ⟨rfl, hagree, hscore⟩ := raised_lowerEach (c :: cs) heach
      (hl.sub (fun _ hq => hq) hdraw hgrows (.refl d')) hworded (Draft.not_mem_fresh_draw hor)
      hspares hs
    rw [hu.holdsAny hl.spares] at hscore
    exact ⟨rfl, hagree.mono (Set.insert_subset hmem hdraw.fresh_right), hscore⟩

/-- The children of a disjunction raise its flag if one of them holds. -/
theorem raised_lowerEach : ∀ (cs : List Condition) {flag : Score} {d d' : Draft}
    {lines : List String}, (lowerEach cs (Line.set flag 1)).run d = (lines, d') →
    Lowering p (predicatesAll cs) d d' → flag.Worded → flag ∉ d.fresh d' →
    Spares (predicatesAll cs) {flag} →
    ∀ {depth : Nat} {w w' : World} {f : Flow},
      sequence (function p depth) (lines.map Order.ofText) w = .ok f w' →
      f = .next ∧ World.Agree (insert flag (d.fresh d')) w w' ∧
        w'.score? flag = if holdsAny w cs then some 1 else w.score? flag
  | [], flag, d, d', lines, heach, _, _, _, _, depth, w, w', f, h => by
    obtain ⟨rfl, -⟩ := Prod.mk.inj heach
    obtain ⟨rfl, rfl⟩ := sequence_nil_ok.mp h
    exact ⟨rfl, .refl _ _, rfl⟩
  | c :: cs, flag, d, d', lines, heach, hl, hworded, hflag, hspares, depth, w, w', f, h => by
    obtain ⟨first, d₁, rest, hfirst, hrest, rfl⟩ := lowerEach_cons_cases heach
    have hgrows := grows_of_lower hfirst
    have hgrows' := grows_of_lowerEach hrest
    have hflag₁ : flag ∉ d.fresh d₁ := fun hm => hflag (hgrows'.fresh_left hm)
    have hflag₂ : flag ∉ d₁.fresh d' := fun hm => hflag (hgrows.fresh_right hm)
    have hc : ∀ q ∈ c.predicates, q ∈ predicatesAll (c :: cs) := by simp +contextual [predicatesAll]
    have hcs : ∀ q ∈ predicatesAll cs, q ∈ predicatesAll (c :: cs) := by
      simp +contextual [predicatesAll]
    have hhead : ∀ {v : World} {g : Flow},
        sequence (function p depth) (first.map Order.ofText) w = .ok g v → g = .next ∧
          World.Agree (insert flag (d.fresh d₁)) w v ∧
          v.score? flag = if c.holds w then some 1 else w.score? flag := fun hs =>
      (guarded_lower c hfirst (hl.sub hc (.refl d) hgrows hgrows') (Line.joined_set hworded 1)
        (fun _ _ => settles_raise hworded hflag₁ w) hs).raise hworded hflag₁
    rw [List.map_append] at h
    rcases sequence_append_ok.mp h with ⟨v, hs, hs'⟩ | ⟨-, hs⟩
    · obtain ⟨-, hagree, hscore⟩ := hhead hs
      obtain ⟨rfl, hagree', hscore'⟩ := raised_lowerEach cs hrest
        (hl.sub hcs hgrows hgrows' (.refl d')) hworded hflag₂ (fun q hq => hspares q (hcs q hq)) hs'
      have hsame : holdsAny v cs = holdsAny w cs := hagree.holdsAny fun q hq s hqs => by
        rintro (rfl | hm)
        · exact hspares q (hcs q hq) _ hqs rfl
        · exact hl.spares q (hcs q hq) s hqs (hgrows'.fresh_left hm)
      refine ⟨rfl, (hagree.mono (Set.insert_subset_insert hgrows'.fresh_left)).trans
        (hagree'.mono (Set.insert_subset_insert hgrows.fresh_right)), ?_⟩
      rw [hscore', hscore, hsame, holdsAny]
      cases c.holds w <;> cases holdsAny w cs <;> rfl
    · cases (hhead hs).1

/-- The lines of a conjunction guard its command. -/
theorem guarded_lowerAll (negated : Bool) : ∀ (cs : List Condition) {run : String} {d d' : Draft}
    {lines : List String}, (lowerAll negated cs run).run d = (lines, d') →
    Lowering p (predicatesAll cs) d d' → Joined run →
    ∀ {depth : Nat} {w w' : World} {f : Flow},
      ((all negated cs).repeats = true → (all negated cs).holds w = true →
        Settles p depth (d.fresh d') (all negated cs) (Order.ofText run) w) →
      sequence (function p depth) (lines.map Order.ofText) w = .ok f w' →
      Guarded p depth (d.fresh d') (Order.ofText run) ((all negated cs).holds w)
        ((all negated cs).inline w) w f w'
  | [], run, d, d', lines, hlower, _, _, depth, w, w', f, _, h => by
    obtain ⟨rfl, -⟩ := Prod.mk.inj hlower
    cases negated with
    | true => exact guarded_nothing h
    | false => exact guarded_alone h
  | [c], run, d, d', lines, hlower, hl, hr, depth, w, w', f, _, h => by
    obtain ⟨first, hfirst, rfl⟩ := lowerAll_single_cases hlower
    have hand : Lettered "and" := by decide
    have hdraw := Draft.Grows.draw d (.temp "and")
    have hgrows := grows_of_lower hfirst
    have hworded := hl.plain.worded_temp hand (d.count (.temp "and"))
    have hmem := Draft.mem_fresh_draw hand hgrows
    have hflag : _ ∉ (d.draw (.temp "and")).fresh d' := Draft.not_mem_fresh_draw hand
    have hc : c.predicates ⊆ predicatesAll [c] := by simp [predicatesAll]
    have htruth : (all negated [c]).holds w = (c.holds w != negated) := by
      rw [holds, holdsAll, holdsAll, Bool.and_true]
    rw [htruth]
    refine guarded_flag hworded hmem hr (fun u v g hu hs => ?_) h
    obtain ⟨rfl, hagree, hscore⟩ := (guarded_lower c hfirst (hl.sub hc hdraw hgrows (.refl d'))
      (Line.joined_set hworded 1) (fun _ _ => settles_raise hworded hflag u) hs).raise hworded hflag
    rw [hu.holds fun q hq => hl.spares q (hc hq)] at hscore
    exact ⟨rfl, hagree.mono (Set.insert_subset hmem hdraw.fresh_right), hscore⟩
  | c :: c' :: cs, run, d, d', lines, hlower, hl, hr, depth, w, w', f, hsettle, h => by
    obtain ⟨first, d₂, rest, d₃, hfirst, hrest, rfl, rfl⟩ := lowerAll_cons_cases hlower
    have hand : Lettered "and" := by decide
    have hdraw := Draft.Grows.draw d (.temp "and")
    have h₂ := grows_of_lower hfirst
    have h₃ := grows_of_lowerAll hrest
    have hlist : d₃.Grows [] (d₃.withList "and" rest) := .withList hand rest d₃
    have hend := h₂.trans (h₃.trans hlist)
    have hworded := hl.plain.worded_temp hand (d.count (.temp "and"))
    have hmem := Draft.mem_fresh_draw hand hend
    have hflag : _ ∉ (d.draw (.temp "and")).fresh d₂ := Draft.not_mem_fresh_draw hand
    have hplain : d₃.options.Plain := by
      rw [h₃.options, h₂.options]
      exact hl.plain
    have hc : c.predicates ⊆ predicatesAll (c :: c' :: cs) := by simp [predicatesAll]
    have hcs : predicatesAll (c' :: cs) ⊆ predicatesAll (c :: c' :: cs) := by
      simp [predicatesAll]
    have hsub₂ : (d.draw (.temp "and")).fresh d₂ ⊆ d.fresh (d₃.withList "and" rest) :=
      fun s hs => hdraw.fresh_right ((h₃.trans hlist).fresh_left hs)
    have hsub₃ : d₂.fresh d₃ ⊆ d.fresh (d₃.withList "and" rest) :=
      fun s hs => (hdraw.trans h₂).fresh_right (hlist.fresh_left hs)
    have hget := ((hl.holds.right (hdraw.trans h₂)).right h₃).get?_list hand
    have htested : ∀ {v : World} {g : Flow}, sequence (function p depth) ((Line.set
          (d.options.temp "and" (d.count (.temp "and"))) 0 :: first).map Order.ofText) w = .ok g v →
        g = .next ∧ World.Agree (d.fresh (d₃.withList "and" rest)) w v ∧ w.executed ≤ v.executed ∧
          v.score? (d.options.temp "and" (d.count (.temp "and"))) =
            some (if c.holds w then 1 else 0) :=
      sequence_tested_ok hworded hmem fun u v g hu hs => by
        obtain ⟨rfl, hagree, hscore⟩ := (guarded_lower c hfirst
          (hl.sub hc hdraw h₂ (h₃.trans hlist)) (Line.joined_set hworded 1)
          (fun _ _ => settles_raise hworded hflag u) hs).raise hworded hflag
        rw [hu.holds fun q hq => hl.spares q (hc hq)] at hscore
        exact ⟨rfl, hagree.mono (Set.insert_subset hmem hsub₂), hscore⟩
    rw [List.map_append] at h
    rcases sequence_append_ok.mp h with ⟨v, hs, hlines⟩ | ⟨-, hs⟩
    · obtain ⟨-, hv, hle, hscore⟩ := htested hs
      refine guarded_conjunction hworded hmem hr (hplain.worded_list hand _) hget hsub₃
        (fun q hq => hl.spares q (hcs hq))
        (fun n u g w' hset hs => guarded_lowerAll negated (c' :: cs) hrest
          (hl.sub hcs (hdraw.trans h₂) h₃ hlist) hr hset hs)
        (fun hneg htrue => ?_) hv hle hscore hlines
      subst hneg
      exact hsettle rfl htrue
    · cases (htested hs).1

end

end Condition

end Packwright
