import Packwright.Proofs.Guard

/-!
# Conditions run their command once

Seen from outside, the lines of a condition are the command once, or nothing.  The flags that the
lines use are their own: a command that touches one of them sees how far the lines have come.

* `Order.Ignores p F o`: the order, and all that it calls, touches no score of `F`.
* `Condition.lower_runs_once`: what a run of the lines does to the scores outside of the flags and
  to the output.
* `Condition.lower_shows_flag`: a command that reads a flag behaves differently under the condition.
-/

namespace Packwright

open Gen Run Words

/-- Whether an order may end in leaving its list. -/
def Order.leaves : Order → Bool
  | .leave => true
  | .guard _ _ _ o | .run o => o.leaves
  | _ => false

/-- The order and all that it calls touch no score of `F`. -/
def Order.Ignores (p : Program) (F : Set Score) (o : Order) : Prop :=
  ∃ S, p.Avoids F S ∧ (∀ s ∈ o.scores, s ∉ F) ∧ ∀ t, o.target? = some t → t ∈ S

theorem Run.order_next {callee : ResourceId → Run Unit} : ∀ {o : Order}, o.leaves = false →
    ∀ {w w' : World} {f : Flow}, order callee o w = .ok f w' → f = .next
  | .nothing, _, _, _, _, h | .adjust _ _ _, _, _, _, _, h | .reset _, _, _, _, _, h
  | .combine _ _ _, _, _, _, _, h | .fetch _ _, _, _, _, _, h | .print _, _, _, _, _, h => by
    cases h
    rfl
  | .call _, _, _, _, _, h => (order_call_ok.mp h).1
  | .guard _ _ _ o, hl, _, _, _, h => by
    rw [order_guard] at h
    split at h
    · exact order_next (o := o) hl h
    · cases h
      rfl
  | .run o, hl, _, _, _, h => order_next (o := o) hl (command_ok.mp h).2
  | .malformed _, _, _, _, _, h => by cases h

theorem Run.sequence_next {callee : ResourceId → Run Unit} : ∀ {os : List Order},
    (∀ o ∈ os, o.leaves = false) → ∀ {w w' : World} {f : Flow},
      sequence callee os w = .ok f w' → f = .next
  | [], _, _, _, _, h => (sequence_nil_ok.mp h).1
  | o :: os, hl, _, _, _, h => by
    rcases sequence_cons_ok.mp h with ⟨v, -, hs⟩ | ⟨-, hc⟩
    · exact sequence_next (fun q hq => hl q (by simp [hq])) hs
    · cases order_next (o := .run o) (hl o (by simp)) hc

namespace Order.Ignores

variable {p : Program} {F : Set Score} {o : Order}

/-- An order without a call touches no score but those that it names. -/
theorem of_target? (htarget : o.target? = none) (hscores : ∀ s ∈ o.scores, s ∉ F) :
    o.Ignores p F := by
  refine ⟨∅, fun id hid => hid.elim, hscores, fun t ht => ?_⟩
  rw [htarget] at ht
  cases ht

theorem frame (ho : o.Ignores p F) {n : Nat} {w w' : World} {f : Flow}
    (h : command (function p n) o w = .ok f w') : ∀ s ∈ F, w'.score? s = w.score? s := by
  obtain ⟨S, hS, hscores, htarget⟩ := ho
  exact order_frame (o := .run o) hscores
    (fun t ht => function_frame hS n t (htarget t ht)) h

/-- The order goes the same way earlier, where there is more depth. -/
theorem transfer (ho : o.Ignores p F) {n depth : Nat} (hn : n ≤ depth) {u v w : World} {f : Flow}
    (h : command (function p n) o u = .ok f v) (hw : World.Agree F w u)
    (hle : w.executed ≤ u.executed) :
    ∃ v', command (function p depth) o w = .ok f v' ∧ World.Agree F v v' := by
  obtain ⟨S, hS, hscores, htarget⟩ := ho
  obtain ⟨v', hv', hcov⟩ := command_transfer hscores
    (fun t ht => function_transfer hS hn t (htarget t ht)) h ⟨hw.symm, hle⟩
  exact ⟨v', hv', hcov.toAgree⟩

variable {G : Set Score} {os : List Order} {n : Nat} {f : Flow}

theorem mono (h : o.Ignores p G) (hF : F ⊆ G) : o.Ignores p F := by
  obtain ⟨S, hS, hscores, htarget⟩ := h
  refine ⟨S, fun id hid os hos o ho => ⟨fun s hs hm => ?_, (hS id hid os hos o ho).2⟩,
    fun s hs hm => hscores s hs (hF hm), htarget⟩
  exact (hS id hid os hos o ho).1 s hs (hF hm)

/-- Orders that do not touch `F` leave its scores as they are. -/
theorem sequence_frame (h : ∀ o ∈ os, o.Ignores p F) {w w' : World}
    (hrun : sequence (function p n) os w = .ok f w') : ∀ s ∈ F, w'.score? s = w.score? s := by
  refine Run.sequence_frame (fun o ho => ?_) (fun o ho t ht => ?_) hrun
  · obtain ⟨S, -, hscores, -⟩ := h o ho
    exact hscores
  · obtain ⟨S, hS, -, htarget⟩ := h o ho
    exact function_frame hS n t (htarget t ht)

/-- Orders that do not touch `F` go the same way in a world that is covered, where there is no less
depth. -/
theorem sequence_transfer (h : ∀ o ∈ os, o.Ignores p F) {depth : Nat} (hn : n ≤ depth)
    {u v w : World} (hrun : sequence (function p n) os u = .ok f v) (hw : World.Covers F u w) :
    ∃ v', sequence (function p depth) os w = .ok f v' ∧ World.Covers F v v' := by
  refine Run.sequence_transfer (fun o ho => ?_) (fun o ho t ht => ?_) hrun hw
  · obtain ⟨S, -, hscores, -⟩ := h o ho
    exact hscores
  · obtain ⟨S, hS, -, htarget⟩ := h o ho
    exact function_transfer hS hn t (htarget t ht)

end Order.Ignores

namespace Condition

/-- **A condition runs its command exactly once.**  Where a run of the lines ends without a fault,
the scores other than the flags and the output are those after the command alone, carried out in the
first world, if the condition holds there; and if it does not, they are as they were. -/
theorem lower_runs_once {p : Program} {c : Condition} {run : String} {d d' : Draft}
    {lines : List String} {depth : Nat} {w w' : World}
    (hlower : (c.lower run).run d = (lines, d')) (hoptions : d.options.Plain)
    (hwords : ∀ q ∈ c.predicates, q.Worded)
    (hfresh : ∀ q ∈ c.predicates, ∀ s ∈ q.test.scores, s ∉ d.fresh d') (hlists : p.Holds d d')
    (hjoined : Joined run) (hstays : (Order.ofText run).leaves = false)
    (hignores : (Order.ofText run).Ignores p (d.fresh d'))
    (h : commands (function p depth) (lines.map Order.ofText) w = .ok () w') :
    if c.holds w then
      ∃ w₁, command (function p depth) (Order.ofText run) w = .ok .next w₁ ∧
        (∀ s, s ∉ d.fresh d' → w'.score? s = w₁.score? s) ∧ w'.output = w₁.output
    else (∀ s, s ∉ d.fresh d' → w'.score? s = w.score? s) ∧ w'.output = w.output := by
  obtain ⟨f, hs⟩ := commands_ok.mp h
  have hguarded := guarded_lower c hlower ⟨hoptions, hwords, hfresh, hlists⟩ hjoined
    (fun _ _ _ _ _ _ _ hrun => Or.inl (hignores.frame hrun)) hs
  cases htruth : c.holds w with
  | false =>
    rw [htruth] at hguarded
    exact ⟨hguarded.2.score, hguarded.2.output⟩
  | true =>
    rw [htruth] at hguarded
    obtain ⟨n, g, u, v, hn, hu, hle, hrun, hv, -⟩ := hguarded
    obtain rfl : g = .next := order_next (o := .run (Order.ofText run)) hstays hrun
    obtain ⟨w₁, hw₁, hagree⟩ := hignores.transfer hn hrun hu hle
    have hend := hagree.symm.trans hv
    exact ⟨w₁, hw₁, hend.score, hend.output⟩

/-- Not both: `$x` is 1, and `$y` is 2 or more. -/
def notBoth : Condition :=
  .all true [.leaf false (.within ⟨"$x", "o"⟩ (.exactly 1)),
    .any false [.leaf false (.within ⟨"$y", "o"⟩ (.exactly 2)),
      .leaf false (.compare ⟨"$y", "o"⟩ .gt ⟨"$x", "o"⟩)]]

/-- The command changes a score that the condition reads. -/
theorem lower_runs_once_notBoth :
    let run := "scoreboard players set $y o 7"
    let r := (notBoth.lower run).run (Draft.empty { })
    let w := (({ } : World).setScore ⟨"$x", "o"⟩ 1).setScore ⟨"$y", "o"⟩ 0
    notBoth.holds w = true ∧ ∃ w' w₁,
      commands (function r.2.pack.program 3) (r.1.map Order.ofText) w = .ok () w' ∧
      command (function r.2.pack.program 3) (Order.ofText run) w = .ok .next w₁ ∧
      (∀ s, s ∉ (Draft.empty { }).fresh r.2 → w'.score? s = w₁.score? s) ∧
      w'.output = w₁.output := by
  intro run r w
  have hfresh : ∀ s : Score, s.entry.toList.head? ≠ some '#' → s ∉ (Draft.empty { }).fresh r.2 :=
    fun s hs hm => hs (Draft.head?_of_mem_fresh hm)
  have hread : ∀ q ∈ notBoth.predicates, ∀ s ∈ q.test.scores, s.entry.toList.head? ≠ some '#' := by
    decide +kernel
  have horder : Order.ofText run = .adjust .set ⟨"$y", "o"⟩ 7 := by decide +kernel
  have hignores : (Order.ofText run).Ignores r.2.pack.program ((Draft.empty { }).fresh r.2) := by
    refine ⟨∅, fun id hid => hid.elim, ?_, ?_⟩
    · rw [horder]
      intro s hs
      obtain rfl : s = ⟨"$y", "o"⟩ := by simpa [Order.scores] using hs
      exact hfresh _ (by decide)
    · rw [horder]
      simp [Order.target?]
  have hholds : notBoth.holds w = true := by decide +kernel
  obtain ⟨⟨⟩, w', hrun⟩ := exists_of_succeeds (m := commands (function r.2.pack.program 3)
    (r.1.map Order.ofText)) (w := w) (by decide +kernel)
  have hlower : (notBoth.lower run).run (Draft.empty { }) = (r.1, r.2) := rfl
  have honce := lower_runs_once hlower Options.plain_default (by decide +kernel)
    (fun q hq s hs => hfresh s (hread q hq s hs)) (fun _ _ => rfl) (by decide +kernel)
    (by rw [horder]; rfl) hignores hrun
  rw [if_pos hholds] at honce
  obtain ⟨w₁, hw₁, hsame⟩ := honce
  exact ⟨hholds, w', w₁, hrun, hw₁, hsame⟩

/-- **The flags of a condition are not for its command.**  A command that reads the flag of a
disjunction finds it raised under the condition, but not set in the first world: the lines note it,
the command alone does not. -/
theorem lower_shows_flag :
    let c : Condition := .any false [.leaf false (.within ⟨"$x", "datascript"⟩ (.exactly 1)),
      .leaf false (.within ⟨"$x", "datascript"⟩ (.exactly 2))]
    let run := "execute if score #or0 datascript matches 1 run say hi"
    let r := (c.lower run).run (Draft.empty { })
    let w := ({ } : World).setScore ⟨"$x", "datascript"⟩ 1
    let outputOf (m : Run Unit) := match m w with
      | .ok _ w' => some w'.output
      | .error _ _ => none
    Order.ofText run = .guard true (.within ⟨"#or0", "datascript"⟩ (.exactly 1))
        "score #or0 datascript matches 1" (.run (.print "say hi")) ∧
      Joined run ∧ (∀ q ∈ c.predicates, q.Worded) ∧ c.holds w = true ∧
      outputOf (commands (function r.2.pack.program 513) (r.1.map Order.ofText)) =
        some #["say hi"] ∧
      outputOf (commands (function r.2.pack.program 513) [Order.ofText run]) = some #[] := by
  decide +kernel

end Condition

end Packwright
