import Packwright.Analysis
import Packwright.Proofs.Once
import Packwright.Proofs.Core.Simulation

/-!
# Conditionals with an alternative

The first branch of a conditional raises a flag, and the second one runs where the flag is down.  So
one of the branches runs, whatever the first one does to the scores that the condition reads.

* `generateEither_cases`: the lines of a conditional with an alternative.
* `generateEither_runs_one`: outside of the flags, a run of the lines is a run of one of the
  branches.
* `branch_sees_flag`: a branch that reads the flag behaves differently in the conditional.
-/

namespace Packwright

open Gen Run Words

variable {p : Program} {c : Condition} {ran : Score} {T E : List String} {d d' : Draft}

/-! ## The lines -/

/-- The name of the list of the first branch. -/
def Draft.branch (d : Draft) : ResourceId := d.options.list "if" (d.count (.list "if"))

theorem asCommand_cases {purpose run : String} {lines : List String}
    (h : (asCommand purpose lines).run d = (run, d')) :
    (lines = [run] ∧ d' = d) ∨
      (run = Line.call (d.options.list purpose (d.count (.list purpose))) ∧
        d' = d.withList purpose lines) := by
  unfold asCommand at h
  split at h
  · obtain ⟨rfl, rfl⟩ := Prod.mk.inj h
    exact Or.inl ⟨rfl, rfl⟩
  · rw [run_bind, run_synthesize] at h
    obtain ⟨rfl, rfl⟩ := Prod.mk.inj h
    exact Or.inr ⟨rfl, rfl⟩

/-- The flag is taken down, the guarded call of the first branch raises it, and the second branch
runs where it is down. -/
theorem generateEither_cases (hE : E ≠ []) (h : (generateEither c ran T E).run d = ((), d')) :
    ∃ guard d₂ run d₃,
      (c.lower (Line.call d.branch)).run
        ((d.write [Line.set ran 0]).withList "if" (Line.set ran 1 :: T)) = (guard, d₂) ∧
      (asCommand "else" E).run (d₂.write guard) = (run, d₃) ∧
      d' = d₃.write [Line.guardAmount true ran 1 run] := by
  rw [generateEither, run_bind, run_emit, run_bind, run_synthesize, run_bind, run_bind,
    run_emitAll] at h
  dsimp only at h
  rw [if_neg (by simpa using hE), run_bind, run_emit] at h
  exact ⟨_, _, _, _, rfl, rfl, (Prod.mk.inj h).2.symm⟩

/-! ## Runs of the lines -/

/-- The command for a list carries the list out. -/
theorem asCommand_runs {purpose run : String} {lines : List String} (hp : Lettered purpose)
    (hoptions : d.options.Plain) (h : (asCommand purpose lines).run d = (run, d'))
    (hlists : p.Holds d d') {depth : Nat} {w w' : World} {f : Flow}
    (hrun : command (function p depth) (Order.ofText run) w = .ok f w') (F : Set Score) :
    ∃ n u g, n ≤ depth ∧ World.Agree F w u ∧ w.executed ≤ u.executed ∧
      sequence (function p n) (lines.map Order.ofText) u = .ok g w' := by
  rcases asCommand_cases h with ⟨rfl, rfl⟩ | ⟨rfl, rfl⟩
  · exact ⟨depth, w, f, le_rfl, .refl F w, le_rfl, sequence_singleton_ok.mpr hrun⟩
  · obtain ⟨-, n, g, rfl, hs⟩ :=
      command_list_ok (hoptions.worded_list hp _) (hlists.get?_list hp) hrun
    exact ⟨n, w.counted, g, Nat.le_succ n, .counted F w, by simp, hs⟩

/-- A branch that does not touch the flags goes the same way in the first world. -/
theorem branch_from_start {F : Set Score} {lines : List String}
    (hignores : ∀ line ∈ lines, (Order.ofText line).Ignores p F) {n depth : Nat} (hn : n ≤ depth)
    {w u v w' : World} {f : Flow} (hu : World.Agree F w u) (hle : w.executed ≤ u.executed)
    (hrun : sequence (function p n) (lines.map Order.ofText) u = .ok f v)
    (hv : World.Agree F v w') :
    ∃ w₁, commands (function p depth) (lines.map Order.ofText) w = .ok () w₁ ∧
      World.Agree F w₁ w' := by
  obtain ⟨w₁, hw₁, hcov⟩ := Order.Ignores.sequence_transfer (List.forall_mem_map.mpr hignores) hn
    hrun ⟨hu.symm, hle⟩
  exact ⟨w₁, commands_ok.mpr ⟨f, hw₁⟩, hcov.toAgree.symm.trans hv⟩

/-- The list of the first branch raises the flag before the branch runs, and the branch leaves it
up. -/
theorem command_branch_ok {id : ResourceId} (hid : id.Worded) (hran : ran.Worded)
    (hget : p.get? id = some ((Line.set ran 1 :: T).map Order.ofText)) {n : Nat} {u v : World}
    {f : Flow} (h : command (function p n) (Order.ofText (Line.call id)) u = .ok f v) :
    ∃ m g, n = m + 1 ∧ f = .next ∧ sequence (function p m) (T.map Order.ofText)
      (u.counted.counted.setScore ran 1) = .ok g v := by
  obtain ⟨rfl, m, g, rfl, hs⟩ := command_list_ok hid hget h
  obtain ⟨u', hset, hT⟩ := sequence_lines_cons (fun _ _ hset => (command_set_ok hran hset).1) hs
  obtain ⟨-, rfl⟩ := command_set_ok hran hset
  exact ⟨m, g, rfl, rfl, hT⟩

/-- The guarded call of the first branch.  If the condition holds, the branch has run once, and the
flag is up behind it. -/
theorem lower_branch_ok {id : ResourceId} {guard : List String} {d₁ d₂ : Draft} {depth : Nat}
    {w w' : World} {f : Flow} (hlower : (c.lower (Line.call id)).run d₁ = (guard, d₂))
    (hl : Lowering p c.predicates d₁ d₂) (hid : id.Worded) (hran : ran.Worded)
    (hnew : ran ∉ d₁.fresh d₂) (hget : p.get? id = some ((Line.set ran 1 :: T).map Order.ofText))
    (hT : ∀ line ∈ T, (Order.ofText line).Ignores p (insert ran (d₁.fresh d₂)))
    (h : sequence (function p depth) (guard.map Order.ofText) w = .ok f w') :
    f = .next ∧ if c.holds w then
      w'.score? ran = some 1 ∧ ∃ n g u v, n ≤ depth ∧
        World.Agree (insert ran (d₁.fresh d₂)) w u ∧ w.executed ≤ u.executed ∧
        sequence (function p n) (T.map Order.ofText) u = .ok g v ∧ World.Agree (d₁.fresh d₂) v w'
      else World.Agree (d₁.fresh d₂) w w' := by
  have hframe : ∀ {n g u v}, sequence (function p n) (T.map Order.ofText) u = .ok g v →
      ∀ s ∈ insert ran (d₁.fresh d₂), v.score? s = u.score? s := fun hs =>
    Order.Ignores.sequence_frame (List.forall_mem_map.mpr hT) hs
  have hguarded := Condition.guarded_lower c hlower hl (Line.joined_call hid)
    (fun _ _ n _ u v _ hcall => Or.inl fun s hs => ?_) h
  · cases htruth : c.holds w with
    | false =>
      rw [htruth] at hguarded
      exact hguarded
    | true =>
      rw [htruth] at hguarded
      obtain ⟨n, g, u, v, hn, hu, hle, hcall, hv, rfl⟩ := hguarded
      obtain ⟨m, g', rfl, rfl, hs⟩ := command_branch_ok hid hran hget hcall
      have hset : World.Agree (insert ran (d₁.fresh d₂)) u (u.counted.counted.setScore ran 1) :=
        ((World.Agree.counted _ u).trans (.counted _ _)).trans (.setScore (Set.mem_insert _ _) _ 1)
      refine ⟨by simp, ?_, m, g', _, v, by omega, (hu.mono (Set.subset_insert _ _)).trans hset,
        by simp; omega, hs, hv⟩
      rw [hv.score ran hnew, hframe hs ran (Set.mem_insert _ _), World.score?_setScore, if_pos rfl]
  · -- the list of the branch leaves the flags of the condition alone
    obtain ⟨m, g, rfl, -, hs'⟩ := command_branch_ok hid hran hget hcall
    rw [hframe hs' s (Or.inr hs), World.score?_setScore, if_neg]
    · rfl
    · rintro rfl
      exact hnew hs

/-- The last line carries out the second branch where the flag is down. -/
theorem alternative_ok {run : String} {depth : Nat} {w w' : World} {f : Flow}
    (hcommand : (asCommand "else" E).run d = (run, d')) (hoptions : d.options.Plain)
    (hlists : p.Holds d d') (hjoined : ∀ line ∈ E, Joined line) (hran : ran.Worded)
    (h : sequence (function p depth)
      ([Line.guardAmount true ran 1 run].map Order.ofText) w = .ok f w') (F : Set Score) :
    if w.score? ran = some 1 then World.Agree F w w'
    else ∃ n g u, n ≤ depth ∧ World.Agree F w u ∧ w.executed ≤ u.executed ∧
      sequence (function p n) (E.map Order.ofText) u = .ok g w' := by
  have helse : Lettered "else" := by decide
  have hrun : Joined run := by
    rcases asCommand_cases hcommand with ⟨rfl, -⟩ | ⟨rfl, -⟩
    · exact hjoined run (by simp)
    · exact Line.joined_call (hoptions.worded_list helse _)
  have hev : World.Agree F w (w.counted.evaluated (Order.amountText ran 1)) :=
    (World.Agree.counted F w).trans (.evaluated F _ _)
  rcases command_guardAmount_ok hran hrun (sequence_singleton_ok.mp h) with
    ⟨hdown, hcmd⟩ | ⟨hup, -, rfl⟩
  · rw [if_neg (by simpa using hdown)]
    obtain ⟨n, u, g, hn, hu, hle, hs⟩ := asCommand_runs helse hoptions hcommand hlists hcmd F
    simp only [World.executed_evaluated, World.executed_counted] at hle
    exact ⟨n, g, u, hn, hev.trans hu, by omega, hs⟩
  · rw [if_pos (by simpa using hup)]
    exact hev

/-- **A conditional with an alternative runs one of its branches.**  Where a run of the lines ends
without a fault, it ends as the first branch does, carried out in the first world, if the condition
holds there, and as the second branch does otherwise.  The flags apart, the branches may change what
the condition reads. -/
theorem generateEither_runs_one {depth : Nat} {w w' : World}
    (hlines : (generateEither c ran T E).run d = ((), d')) (hoptions : d.options.Plain)
    (hframes : d.frames ≠ []) (hran : ran.Worded) (hnew : ran ∉ d.fresh d')
    (hwords : ∀ q ∈ c.predicates, q.Worded)
    (hreads : ∀ q ∈ c.predicates, ∀ s ∈ q.test.scores, s ∉ insert ran (d.fresh d'))
    (hlists : p.Holds d d') (hE : E ≠ []) (hjoined : ∀ line ∈ E, Joined line)
    (hthen : ∀ line ∈ T, (Order.ofText line).Ignores p (insert ran (d.fresh d')))
    (helse : ∀ line ∈ E, (Order.ofText line).Ignores p (insert ran (d.fresh d')))
    (hrun : commands (function p depth) ((d.written d').map Order.ofText) w = .ok () w') :
    ∃ w₁, commands (function p depth) ((if c.holds w then T else E).map Order.ofText) w =
        .ok () w₁ ∧
      World.Agree (insert ran (d.fresh d')) w₁ w' := by
  have hif : Lettered "if" := by decide
  have helseName : Lettered "else" := by decide
  obtain ⟨guard, d₂, run, d₃, hlower, hcommand, rfl⟩ := generateEither_cases hE hlines
  -- how the draft grows with the lines
  have g₀ := Draft.Grows.write d [Line.set ran 0]
  have g₁ := Draft.Grows.withList hif (Line.set ran 1 :: T) (d.write [Line.set ran 0])
  have g₂ := Condition.grows_of_lower hlower
  have g₃ := Draft.Grows.write d₂ guard
  have g₄ : (d₂.write guard).Grows [] d₃ := by
    rcases asCommand_cases hcommand with ⟨-, rfl⟩ | ⟨-, rfl⟩
    · exact .refl _
    · exact .withList helseName E _
  have g₅ := Draft.Grows.write d₃ [Line.guardAmount true ran 1 run]
  have gguard := g₀.trans g₁
  have gend := g₃.trans (g₄.trans g₅)
  have hnew' : ran ∉ Draft.fresh _ d₂ := fun hm => hnew (gguard.fresh_right (gend.fresh_left hm))
  have hflags : Draft.fresh _ d₂ ⊆ insert ran (d.fresh (d₃.write _)) := fun s hs =>
    Or.inr (gguard.fresh_right (gend.fresh_left hs))
  have hid : d.branch.Worded := hoptions.worded_list hif _
  have hget : p.get? d.branch = some ((Line.set ran 1 :: T).map Order.ofText) :=
    ((hlists.right g₀).left g₁ (g₂.trans gend)).get?_list hif
  rw [(gguard.trans (g₂.trans gend)).written_eq hframes] at hrun
  -- the flag is taken down
  obtain ⟨f, hs⟩ := commands_ok.mp hrun
  obtain ⟨w₀, hset, hs⟩ := sequence_lines_cons (fun _ _ hset => (command_set_ok hran hset).1) hs
  obtain ⟨-, rfl⟩ := command_set_ok hran hset
  have hw₀ : World.Agree (insert ran (d.fresh (d₃.write [Line.guardAmount true ran 1 run]))) w
      (w.counted.setScore ran 0) :=
    (World.Agree.counted _ w).trans (.setScore (Set.mem_insert _ _) _ 0)
  -- the first branch runs under its guard
  have hguard := fun g x (h : sequence (function p depth) (guard.map Order.ofText)
      (w.counted.setScore ran 0) = .ok g x) =>
    lower_branch_ok hlower ⟨hoptions, hwords, fun q hq s hs hm => hreads q hq s hs (hflags hm),
      (hlists.right gguard).left g₂ gend⟩ hid hran hnew' hget
      (fun line hline => (hthen line hline).mono (Set.insert_subset (Set.mem_insert _ _) hflags)) h
  obtain ⟨x, hx, hlast⟩ := sequence_lines_append (fun g x hx => (hguard g x hx).1) hs
  have hbranch := (hguard _ x hx).2
  rw [hw₀.holds hreads] at hbranch
  -- the second branch runs where the flag is down
  have hplain : (d₂.write guard).options.Plain := by
    show d₂.options.Plain
    rw [g₂.options]
    exact hoptions
  have hotherwise := alternative_ok hcommand hplain
    ((hlists.right (gguard.trans (g₂.trans g₃))).left g₄ g₅) hjoined hran hlast
    (insert ran (d.fresh (d₃.write [Line.guardAmount true ran 1 run])))
  have hle := sequence_executed (function_executed p depth) hx
  simp only [World.executed_setScore, World.executed_counted] at hle
  cases htruth : c.holds w with
  | true =>
    rw [htruth] at hbranch
    obtain ⟨hup, n, g, u, v, hn, hu, hle', hT, hv⟩ := hbranch
    rw [if_pos hup] at hotherwise
    simp only [World.executed_setScore, World.executed_counted] at hle'
    exact branch_from_start hthen hn
      (hw₀.trans (hu.mono (Set.insert_subset (Set.mem_insert _ _) hflags))) (by omega) hT
      ((hv.mono hflags).trans hotherwise)
  | false =>
    rw [htruth] at hbranch
    have hstill : World.Agree _ (w.counted.setScore ran 0) x := hbranch
    have hdown : x.score? ran = some 0 := by
      rw [hstill.score ran hnew', World.score?_setScore, if_pos rfl]
    rw [if_neg (by rw [hdown]; decide)] at hotherwise
    obtain ⟨n, g, u, hn, hu, hle', hs'⟩ := hotherwise
    exact branch_from_start helse hn (hw₀.trans ((hstill.mono hflags).trans hu)) (by omega) hs'
      (.refl _ _)

/-- The first branch makes the condition false, and the second one still does not run. -/
theorem generateEither_runs_one_changed :
    let c : Condition := .any false [.leaf false (.within ⟨"$x", "o"⟩ (.exactly 1)),
      .leaf false (.within ⟨"$x", "o"⟩ (.exactly 2))]
    let ran : Score := ⟨"#ranIf0", "datascript"⟩
    let T := ["scoreboard players set $x o 7", "say t"]
    let E := ["say e", "say f"]
    let d := (Draft.empty { }).pushFrame
    let d' := ((generateEither c ran T E).run d).2
    let p := d'.pack.program
    let w := ({ } : World).setScore ⟨"$x", "o"⟩ 1
    c.holds w = true ∧ ∃ w' w₁,
      commands (function p 3) ((d.written d').map Order.ofText) w = .ok () w' ∧
      commands (function p 3) (T.map Order.ofText) w = .ok () w₁ ∧
      World.Agree (insert ran (d.fresh d')) w₁ w' := by
  intro c ran T E d d' p w
  have hran : ran ∉ d.fresh d' := by
    rintro ⟨purpose, n, hp, -, hlt, heq⟩
    have htemp : ({ } : Options).temp "ranIf" 0 = ({ } : Options).temp purpose n := heq
    obtain ⟨rfl, -⟩ := Options.temp_inj (by decide) hp htemp
    have hnone : d'.count (.temp "ranIf") = 0 := by decide +kernel
    omega
  have hflags : ∀ s : Score, s.entry.toList.head? ≠ some '#' → s ∉ insert ran (d.fresh d') := by
    rintro s hs (rfl | hm)
    · exact hs (by decide)
    · exact hs (Draft.head?_of_mem_fresh hm)
  have hreads : ∀ q ∈ c.predicates, ∀ s ∈ q.test.scores, s.entry.toList.head? ≠ some '#' := by
    decide +kernel
  have hplain : ∀ line ∈ T ++ E, (Order.ofText line).target? = none ∧
      ∀ s ∈ (Order.ofText line).scores, s.entry.toList.head? ≠ some '#' := by decide +kernel
  have hignores : ∀ line ∈ T ++ E, (Order.ofText line).Ignores p (insert ran (d.fresh d')) :=
    fun line hline => .of_target? (hplain line hline).1
      fun s hs => hflags s ((hplain line hline).2 s hs)
  have hholds : c.holds w = true := by decide +kernel
  obtain ⟨⟨⟩, w', hrun⟩ := exists_of_succeeds (m := commands (function p 3)
    ((d.written d').map Order.ofText)) (w := w) (by decide +kernel)
  have hlines : (generateEither c ran T E).run d = ((), d') := rfl
  obtain ⟨w₁, hw₁, hagree⟩ := generateEither_runs_one hlines Options.plain_default (by decide)
    (by decide) hran (by decide +kernel) (fun q hq s hs => hflags s (hreads q hq s hs))
    (fun _ _ => rfl) (by decide) (by decide +kernel)
    (fun line hline => hignores line (List.mem_append_left _ hline))
    (fun line hline => hignores line (List.mem_append_right _ hline)) hrun
  rw [if_pos hholds] at hw₁
  exact ⟨hholds, w', w₁, hrun, hw₁, hagree⟩

/-- **The flag is not for the branches.**  A branch that reads the flag finds it up in the
conditional, but not set in the first world: the function says `"hi"`, and the branch alone says
nothing. -/
theorem branch_sees_flag :
    let line := "execute if score #ranIf0 datascript matches 1 run say hi"
    let source := "function f \x7b\n var x = 1\n if (x == 1) \x7b cmd \"" ++ line ++
      "\" \x7d else \x7b say \"e\" \x7d\n\x7d\n"
    let (pack, report) := compile source { } { }
    let (fault, w) := pack.program.run { } ⟨"datascript", "f"⟩
    let outputOf (m : Run Unit) := match m (({ } : World).setScore ⟨"$x", "datascript"⟩ 1) with
      | .ok _ w' => some w'.output
      | .error _ _ => none
    report.diagnostics = [] ∧ fault = none ∧ w.output = #["say hi"] ∧
      outputOf (commands (function pack.program 3) [Order.ofText line]) = some #[] := by
  decide +kernel

end Packwright
