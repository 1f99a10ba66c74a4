import Packwright.Proofs.Core.Tidy
import Packwright.Proofs.Core.Truths

/-!
# Lines that do what the interpreter does

`Realizes d d' lines R` says that the lines written on the way from one draft to another lead the
scores of the variables along the relation `R` between states of the interpreter.  There is one rule
for each way in which generation puts lines together, for an arbitrary `R`.

* `Draft.Reflects d w σ`: the scores hold the values of the variables, and the same was said.
* `Realizes.andThen`, `Realizes.inside`: sequences and scopes.
* `Condition.lower_ok`: what a run of the lines of a condition did.
* `Decides c d d' lines R R'`: the lines lead along `R` or `R'`, by the truth of a condition.
* `Flags c ran d d' lines R`: the lines lead along `R` if the condition holds, and a flag says so.
* `Realizes.guarded`, `Realizes.alternative`: conditionals.
-/

namespace Packwright

open Gen Run Words Packwright.Core

/-! ## Worlds and states -/

/-- The scores hold the values of the variables, and the same lines were said. -/
structure Draft.Reflects (d : Draft) (w : World) (σ : State) : Prop where
  values : Mirrors w d.scopes σ.scopes
  said : w.output = σ.said

/-- No score but those of `F` and of variables has changed. -/
def World.Kept (F : Set Score) (w w' : World) : Prop :=
  ∀ s, ¬ s.IsVariable → s ∉ F → w'.score? s = w.score? s

namespace World.Kept

variable {F G : Set Score} {w u v : World}

theorem trans (h : Kept F w u) (h' : Kept F u v) : Kept F w v :=
  fun s hs hF => (h' s hs hF).trans (h s hs hF)

theorem mono (h : Kept F w u) (hFG : F ⊆ G) : Kept G w u :=
  fun s hs hG => h s hs fun hF => hG (hFG hF)

theorem of_agree (h : Agree F w u) : Kept F w u := fun s _ hs => h.score s hs

/-- A change of the score of a variable is not looked at. -/
theorem of_agree_insert {s : Score} (hs : s.IsVariable) (h : Agree (insert s F) w u) :
    Kept F w u := by
  intro t ht hF
  refine h.score t fun hmem => ?_
  rcases hmem with rfl | hmem
  · exact ht hs
  · exact hF hmem

end World.Kept

theorem Mirrors.cases {w : World} : ∀ {scopes : List (Table String Value)}
    {frames : List (Table String Amount)}, Mirrors w scopes frames → ∀ x,
      (scopes.findSome? (·.get? x) = none ∧ frames.findSome? (·.get? x) = none) ∨
        ∃ s n, scopes.findSome? (·.get? x) = some (.score s) ∧
          frames.findSome? (·.get? x) = some n ∧ w.score? s = some n
  | [], [], _, _ => Or.inl ⟨rfl, rfl⟩
  | [], _ :: _, h, _ => h.elim
  | _ :: _, [], h, _ => h.elim
  | scope :: outer, frame :: frames, ⟨hshow, houter⟩, x => by
    rw [List.findSome?_cons, List.findSome?_cons]
    rcases hshow x with ⟨hscope, hframe⟩ | ⟨s, n, hscope, hframe, hn⟩
    · rw [hscope, hframe]
      exact Mirrors.cases houter x
    · rw [hscope, hframe]
      exact Or.inr ⟨s, n, rfl, rfl, hn⟩

namespace Draft.Reflects

variable {d d' : Draft} {w w' : World} {σ : State} {F : Set Score}

/-- The interpreter looks up what the scores hold. -/
theorem env_eq (h : d.Reflects w σ) : d.env w = σ.lookup? := by
  funext x
  unfold Draft.env Draft.lookup? State.lookup?
  rcases h.values.cases x with ⟨hscope, hframe⟩ | ⟨s, n, hscope, hframe, hn⟩
  · rw [hscope, hframe]
  · rw [hscope, hframe]
    exact hn

theorem ready (h : d.Reflects w σ) : d.Ready w := by
  intro x s hx
  obtain ⟨n, -, hn⟩ := h.values.lookup hx
  exact ⟨n, hn⟩

theorem of_scopes (h : d.Reflects w σ) (hscopes : d'.scopes = d.scopes) : d'.Reflects w σ :=
  ⟨hscopes ▸ h.values, h.said⟩

/-- What is no variable may change. -/
theorem agree (h : d.Reflects w σ) (hd : d.Neat) (hF : ∀ s ∈ F, ¬ s.IsVariable)
    (hw : World.Agree F w w') : d.Reflects w' σ :=
  ⟨h.values.congr fun s hs => hw.score s fun hmem => hF s hmem (hd.owned s hs).1,
    hw.output.trans h.said⟩

theorem fresh (h : d.Reflects w σ) (hd : d.Neat) {d₁ d₂ : Draft}
    (hw : World.Agree (d₁.fresh d₂) w w') : d.Reflects w' σ :=
  h.agree hd (fun _ hs => Draft.not_isVariable_of_mem_fresh hs) hw

end Draft.Reflects

/-! ## Realization -/

/-- The lines on the way from one draft to another do what the relation allows. -/
structure Realizes (d d' : Draft) (lines : List String) (R : State → State → Prop) : Prop where
  neat : d'.Neat
  tidy : Draft.Tidy ∅ d d' lines
  runs : ∀ p : Program, p.Holds d d' → ∀ depth w f w' σ, d.Reflects w σ →
    sequence (function p depth) (lines.map Order.ofText) w = .ok f w' →
    f = .next ∧ World.Kept (d.fresh d') w w' ∧ ∃ τ, R σ τ ∧ d'.Reflects w' τ

/-- A step in a scope of its own. -/
def Inside (R : State → State → Prop) (σ τ : State) : Prop := ∃ τ', R σ.enter τ' ∧ τ = τ'.leave

namespace Realizes

variable {d d₁ d₂ : Draft} {lines lines' l l' : List String} {R R' : State → State → Prop}

theorem mono (h : Realizes d d₁ lines R) (hR : ∀ σ τ, R σ τ → R' σ τ) :
    Realizes d d₁ lines R' := by
  refine ⟨h.neat, h.tidy, fun p hp depth w f w' σ hσ hrun => ?_⟩
  obtain ⟨hf, hkept, τ, hτ, hw'⟩ := h.runs p hp depth w f w' σ hσ hrun
  exact ⟨hf, hkept, τ, hR σ τ hτ, hw'⟩

/-- **Sequences**: one step behind the other. -/
theorem andThen (h : Realizes d d₁ lines R) (h' : Realizes d₁ d₂ lines' R') (hg : d.Grows l d₁)
    (hg' : d₁.Grows l' d₂) :
    Realizes d d₂ (lines ++ lines') fun σ τ => ∃ σ₁, R σ σ₁ ∧ R' σ₁ τ := by
  refine ⟨h'.neat, h.tidy.append h'.tidy hg hg', fun p hp depth w f w' σ hσ hrun => ?_⟩
  have hp₁ := hp.left hg hg'
  obtain ⟨v, hv, hrest⟩ := sequence_lines_append
    (fun g v hs => (h.runs p hp₁ depth w g v σ hσ hs).1) hrun
  obtain ⟨-, hkept, σ₁, hσ₁, hreflects⟩ := h.runs p hp₁ depth w _ v σ hσ hv
  obtain ⟨hf, hkept', τ, hτ, hreflects'⟩ :=
    h'.runs p (hp.right hg) depth v f w' σ₁ hreflects hrest
  exact ⟨hf, (hkept.mono hg'.fresh_left).trans (hkept'.mono hg.fresh_right), τ, ⟨σ₁, hσ₁, hτ⟩,
    hreflects'⟩

theorem nil (hd : d.Neat) : Realizes d d [] Eq := by
  refine ⟨hd, .of_adds (.refl d) fun line hline => absurd hline List.not_mem_nil, ?_⟩
  intro p _ depth w f w' σ hσ hrun
  obtain ⟨rfl, rfl⟩ := sequence_nil_ok.mp hrun
  exact ⟨rfl, fun _ _ _ => rfl, σ, rfl, hσ⟩

/-- **Scopes**: what a step declares ends with its scope. -/
theorem inside (h : Realizes d.pushScope d₁ lines R) (hd : d.Neat) (hg : d.pushScope.Grows l d₁) :
    Realizes d d₁.popScope lines (Inside R) := by
  obtain ⟨hscopes, hgrows⟩ := hg.popScope
  refine ⟨hd.grow hgrows hscopes, ⟨h.tidy.clear, h.tidy.bodies⟩,
    fun p hp depth w f w' σ hσ hrun => ?_⟩
  have henter : d.pushScope.Reflects w σ.enter :=
    ⟨⟨fun _ => Or.inl ⟨rfl, rfl⟩, hσ.values⟩, hσ.said⟩
  obtain ⟨hf, hkept, τ, hτ, hreflects⟩ := h.runs p hp depth w f w' _ henter hrun
  refine ⟨hf, hkept, τ.leave, ⟨τ, hτ, rfl⟩, ?_, hreflects.said⟩
  have hvalues := hreflects.values
  cases hs : d₁.scopes with
  | nil => exact absurd hs h.neat.opened
  | cons scope outer =>
    cases ht : τ.scopes with
    | nil =>
      rw [hs, ht] at hvalues
      exact hvalues.elim
    | cons frame frames =>
      rw [hs, ht] at hvalues
      show Mirrors w' (d₁.scopes.drop 1) (τ.scopes.drop 1)
      rw [hs, ht]
      exact hvalues.2

/-- What is captured is not written, but does the same where it is put. -/
theorem captured (h : Realizes d.pushFrame d₁ lines R) (hd : d.Neat)
    (hg : d.pushFrame.Grows lines d₁) (hscopes : d₁.scopes = d.scopes) :
    d.Grows [] d₁.popFrame ∧ Realizes d d₁.popFrame lines R := by
  have hgrows := hg.popFrame.2
  exact ⟨hgrows, hd.grow hgrows hscopes, ⟨h.tidy.clear, h.tidy.bodies⟩,
    fun p hp depth w f w' σ hσ hrun => by
      obtain ⟨hf, hkept, τ, hτ, hreflects⟩ := h.runs p hp depth w f w' σ ⟨hσ.values, hσ.said⟩ hrun
      exact ⟨hf, hkept, τ, hτ, hreflects.values, hreflects.said⟩⟩

/-- Lines that are written behind it add nothing to a draft but themselves. -/
theorem write (h : Realizes d d₁ lines R) (l : List String) : Realizes d (d₁.write l) lines R := by
  refine ⟨⟨h.neat.plain, h.neat.opened, h.neat.apart, h.neat.owned⟩, ⟨h.tidy.clear, h.tidy.bodies⟩,
    fun p hp depth w f w' σ hσ hrun => ?_⟩
  obtain ⟨hf, hkept, τ, hτ, hreflects⟩ := h.runs p hp depth w f w' σ hσ hrun
  exact ⟨hf, hkept, τ, hτ, hreflects.values, hreflects.said⟩

end Realizes

/-! ## Commands for lists -/

/-- Where the command runs without a fault, the lines have run, and the command goes on behind lines
that do not leave their list. -/
def Stands (p : Program) (run : String) (lines : List String) : Prop :=
  ∀ depth u g v, command (function p depth) (Order.ofText run) u = .ok g v →
    ∃ n g' u', n ≤ depth ∧ World.Agree ∅ u u' ∧
      sequence (function p n) (lines.map Order.ofText) u' = .ok g' v ∧ (g' = .next → g = .next)

theorem command_list_ok {p : Program} {id : ResourceId} {lines : List String} (hid : id.Worded)
    (hget : p.get? id = some (lines.map Order.ofText)) {depth : Nat} {u v : World} {g : Flow}
    (h : command (function p depth) (Order.ofText (Line.call id)) u = .ok g v) :
    g = .next ∧ ∃ n g', depth = n + 1 ∧
      sequence (function p n) (lines.map Order.ofText) u.counted = .ok g' v := by
  rw [Order.ofText_call hid] at h
  obtain ⟨rfl, hfun⟩ := order_call_ok.mp (command_ok.mp h).2
  obtain ⟨n, os, g', rfl, hos, hs⟩ := function_ok.mp hfun
  obtain rfl : os = lines.map Order.ofText := Option.some.inj (hos.symm.trans hget)
  exact ⟨rfl, n, g', rfl, hs⟩

theorem stands_call {p : Program} {id : ResourceId} {lines : List String} (hid : id.Worded)
    (hget : p.get? id = some (lines.map Order.ofText)) : Stands p (Line.call id) lines := by
  intro depth u g v h
  obtain ⟨rfl, n, g', rfl, hs⟩ := command_list_ok hid hget h
  exact ⟨n, g', u.counted, Nat.le_succ n, .counted ∅ u, hs, fun _ => rfl⟩

/-- The command for a list: its only line, or a call of it. -/
theorem asCommand_spec {d d₁ : Draft} {l lines : List String} {T : Set ResourceId}
    (htidy : Draft.Tidy T d d₁ lines) (hg : d.Grows l d₁) (hd : d.options.Plain) (purpose : String)
    (hp : Lettered purpose) (hne : lines ≠ []) :
    ∃ run d₂, (asCommand purpose lines).run d₁ = (run, d₂) ∧ d₁.Grows [] d₂ ∧
      d₂.scopes = d₁.scopes ∧ Draft.Tidy T d d₂ [run] ∧
      ∀ p : Program, p.Holds d₁ d₂ → Stands p run lines := by
  have hcall : ∃ run d₂, (do return Line.call (← synthesize purpose lines) : Gen String).run d₁ =
      (run, d₂) ∧ d₁.Grows [] d₂ ∧ d₂.scopes = d₁.scopes ∧ Draft.Tidy T d d₂ [run] ∧
      ∀ p : Program, p.Holds d₁ d₂ → Stands p run lines := by
    refine ⟨_, _, rfl, .withList hp lines d₁, rfl, htidy.withList hg hd hp hne,
      fun p hp' => ?_⟩
    exact stands_call ((hg.options ▸ hd : d₁.options.Plain).worded_list hp _) (hp'.get?_list hp)
  unfold asCommand
  split
  · rename_i line
    refine ⟨line, d₁, rfl, .refl d₁, rfl, htidy, fun p _ depth u g v h => ?_⟩
    exact ⟨depth, g, u, le_rfl, .refl ∅ u, sequence_singleton_ok.mpr h, id⟩
  · exact hcall

theorem Realizes.of_command {p : Program} {d d₁ : Draft} {run : String} {lines : List String}
    {R : State → State → Prop} (h : Realizes d d₁ lines R) (hd : d.Neat) (hp : p.Holds d d₁)
    (hst : Stands p run lines) {depth : Nat} {u v : World} {g : Flow} {σ : State}
    (hσ : d.Reflects u σ) (hrun : command (function p depth) (Order.ofText run) u = .ok g v) :
    g = .next ∧ World.Kept (d.fresh d₁) u v ∧ ∃ τ, R σ τ ∧ d₁.Reflects v τ := by
  obtain ⟨n, g', u', -, hu', hs, hg⟩ := hst depth u g v hrun
  obtain ⟨hnext, hkept, hτ⟩ := h.runs p hp n u' g' v σ
    (hσ.agree hd (fun s hs => absurd hs (Set.notMem_empty s)) hu') hs
  refine ⟨hg hnext, fun s hs hF => ?_, hτ⟩
  rw [hkept s hs hF, hu'.score s (Set.notMem_empty s)]

/-- A run of the lines of a condition: the command was carried out once, or not at all. -/
theorem Condition.lower_ok {p : Program} {c : Condition} {run : String} {d d' : Draft}
    {lines : List String} (hlower : (c.lower run).run d = (lines, d')) (hd : d.options.Plain)
    (hc : c.Steady d) (hp : p.Holds d d') (hr : Joined run) {depth : Nat} {w w' : World} {f : Flow}
    (hnext : ∀ n ≤ depth, ∀ u g v, World.Agree (d.fresh d') w u →
      command (function p n) (Order.ofText run) u = .ok g v → g = .next ∧
        ((∀ s ∈ d.fresh d', v.score? s = u.score? s) ∨ c.holds v = false))
    (h : sequence (function p depth) (lines.map Order.ofText) w = .ok f w') :
    f = .next ∧ ((c.holds w = false ∧ World.Agree (d.fresh d') w w') ∨
      (c.holds w = true ∧ ∃ n u v, n ≤ depth ∧ World.Agree (d.fresh d') w u ∧
        command (function p n) (Order.ofText run) u = .ok .next v ∧
        World.Agree (d.fresh d') v w')) := by
  have hguarded := guarded_lower c hlower ⟨hd, hc.worded, hc.spares d', hp⟩ hr
    (fun _ _ n hn u v hu hrun => (hnext n hn u _ v hu hrun).2) h
  cases htruth : c.holds w with
  | false =>
    rw [htruth] at hguarded
    exact ⟨hguarded.1, Or.inl ⟨rfl, hguarded.2⟩⟩
  | true =>
    rw [htruth] at hguarded
    obtain ⟨n, g, u, v, hn, hu, -, hrun, hv, rfl⟩ := hguarded
    obtain ⟨rfl, -⟩ := hnext n hn u g v hu hrun
    exact ⟨by simp, Or.inr ⟨rfl, n, u, v, hn, hu, hrun, hv⟩⟩

/-! ## Conditionals -/

/-- One step or another, by the truth of a condition. -/
def Choice (t : Truth) (R R' : State → State → Prop) (σ τ : State) : Prop :=
  (t.eval σ.lookup? = some true ∧ R σ τ) ∨ (t.eval σ.lookup? = some false ∧ R' σ τ)

theorem Draft.Tidy.lowered {c : Condition} {run : String} {d d₁ d₂ : Draft}
    {l lines : List String} (h : Tidy ∅ d d₁ [run]) (hg : d.Grows l d₁)
    (hlower : (c.lower run).run d₁ = (lines, d₂)) (hd : d.options.Plain) (hc : c.Steady d₁) :
    Tidy ∅ d d₂ lines := by
  have hg' := Condition.grows_of_lower hlower
  have htidy := Condition.tidy_lower c hlower (hg.options ▸ hd) (fun p hp => (hc p hp).1)
    (h.clear run (by simp))
  have hall := (h.mono (Set.empty_subset (∅ ∪ d.full d₁))).append htidy hg hg'
  refine (hall.sub (List.subset_append_right _ _)).absorb ?_
  rw [Set.empty_union]
  exact hg.full_left hg'

variable {d d₁ d₂ : Draft} {setup lines : List String} {c : Condition} {t : Truth}
  {R : State → State → Prop}

theorem Core.Tests.tidy (ht : Tests d setup d₁ c t) : Draft.Tidy ∅ d d₁ setup :=
  .of_adds ht.adds ht.adds.clear

/-- The lines in front of a condition make it true or false as the interpreter has it. -/
theorem Core.Tests.prepares (ht : Tests d setup d₁ c t) (hd : d.Neat)
    {callee : ResourceId → Run Unit} {w v : World} {g : Flow} {σ : State} (hσ : d.Reflects w σ)
    (h : sequence callee (setup.map Order.ofText) w = .ok g v) :
    g = .next ∧ World.Kept (d.fresh d₁) w v ∧ t.eval σ.lookup? = some (c.holds v) ∧
      d₁.Reflects v σ := by
  obtain ⟨hg, hagree, heval⟩ := ht.runs callee w g v hσ.ready h
  rw [hσ.env_eq] at heval
  exact ⟨hg, .of_agree hagree, heval, (hσ.fresh hd hagree).of_scopes ht.adds.scopes_eq⟩

/-- Lines behind a condition that take one step or another, by its truth. -/
structure Decides (c : Condition) (d d' : Draft) (lines : List String)
    (R R' : State → State → Prop) : Prop where
  neat : d'.Neat
  tidy : Draft.Tidy ∅ d d' lines
  runs : ∀ p : Program, p.Holds d d' → ∀ depth w f w' σ, d.Reflects w σ →
    sequence (function p depth) (lines.map Order.ofText) w = .ok f w' →
    f = .next ∧ World.Kept (d.fresh d') w w' ∧
      ∃ τ, (if c.holds w then R σ τ else R' σ τ) ∧ d'.Reflects w' τ

/-- With the lines in front of the condition, the choice is that of the interpreter. -/
theorem Core.Tests.choice {R' : State → State → Prop} {l : List String}
    (ht : Tests d setup d₁ c t) (hd : d.Neat) (h : Decides c d₁ d₂ lines R R')
    (hg : d₁.Grows l d₂) : Realizes d d₂ (setup ++ lines) (Choice t R R') := by
  refine ⟨h.neat, ht.tidy.append h.tidy ht.adds.toGrows hg, fun p hp depth w f w' σ hσ hrun => ?_⟩
  obtain ⟨v, hv, hrest⟩ := sequence_lines_append (fun g v hs => (ht.prepares hd hσ hs).1) hrun
  obtain ⟨-, hkept, heval, hreflects⟩ := ht.prepares hd hσ hv
  obtain ⟨hf, hkept', τ, hτ, hw'⟩ :=
    h.runs p (hp.right ht.adds.toGrows) depth v f w' σ hreflects hrest
  refine ⟨hf, (hkept.mono hg.fresh_left).trans (hkept'.mono ht.adds.toGrows.fresh_right), τ, ?_,
    hw'⟩
  cases htruth : c.holds v with
  | false =>
    rw [htruth] at hτ heval
    exact Or.inr ⟨heval, hτ⟩
  | true =>
    rw [htruth] at hτ heval
    exact Or.inl ⟨heval, hτ⟩

namespace Decides

/-- Nothing stands under the condition. -/
theorem nothing (h : Realizes d₁ d₂ [] R) (hscopes : d₂.scopes = d₁.scopes) :
    Decides c d₁ d₂ [] R Eq := by
  refine ⟨h.neat, h.tidy, fun p hp depth w f w' σ hσ hrun => ?_⟩
  obtain ⟨hf, hkept, τ, hτ, hw'⟩ := h.runs p hp depth w f w' σ hσ hrun
  refine ⟨hf, hkept, ?_⟩
  cases c.holds w with
  | true => exact ⟨τ, hτ, hw'⟩
  | false =>
    obtain ⟨-, rfl⟩ := sequence_nil_ok.mp hrun
    exact ⟨σ, rfl, hσ.of_scopes hscopes⟩

/-- The command for some lines stands under the condition. -/
theorem guard {d₃ d₄ : Draft} {run : String} {guard : List String} (hd : d₁.Neat)
    (hc : c.Steady d₁) (h : Realizes d₁ d₂ lines R) (hg : d₁.Grows [] d₂) (hg₃ : d₂.Grows [] d₃)
    (hscopes : d₂.scopes = d₁.scopes) (hscopes₃ : d₃.scopes = d₂.scopes)
    (htidy : Draft.Tidy ∅ d₁ d₃ [run]) (hstands : ∀ p : Program, p.Holds d₂ d₃ → Stands p run lines)
    (hlower : (c.lower run).run d₃ = (guard, d₄)) : Decides c d₁ d₄ guard R Eq := by
  have hg₄ := Condition.grows_of_lower hlower
  have hscopes₄ := Condition.scopes_of_lower hlower
  have hg₁₃ : d₁.Grows [] d₃ := hg.trans hg₃
  have hc₃ : c.Steady d₃ := hc.grow hg₁₃
  have hsame : d₄.scopes = d₁.scopes := hscopes₄.trans (hscopes₃.trans hscopes)
  refine ⟨hd.grow (hg₁₃.trans hg₄) hsame, htidy.lowered hg₁₃ hlower hd.plain hc₃,
    fun p hp depth w f w' σ hσ hrun => ?_⟩
  have hst := hstands p ((hp.right hg).left hg₃ hg₄)
  -- a run of the command in a world that reflects the same state
  have hbody : ∀ {n u g v}, World.Agree (d₃.fresh d₄) w u →
      command (function p n) (Order.ofText run) u = .ok g v →
      g = .next ∧ World.Kept (d₁.fresh d₂) u v ∧ ∃ τ, R σ τ ∧ d₂.Reflects v τ :=
    fun hu hcmd => h.of_command hd (hp.left hg (hg₃.trans hg₄)) hst (hσ.fresh hd hu) hcmd
  have hlater : ∀ s ∈ d₃.fresh d₄, s ∉ d₁.fresh d₂ := fun s hs hmem =>
    hg₁₃.fresh_disjoint (hg₃.fresh_left hmem) hs
  obtain ⟨hf, hcases⟩ := Condition.lower_ok hlower (hg₁₃.options ▸ hd.plain) hc₃
    ((hp.right hg).right hg₃) (htidy.clear run (by simp)).joined (fun n _ u g v hu hcmd => by
      obtain ⟨hnext, hkept, -⟩ := hbody hu hcmd
      exact ⟨hnext, Or.inl fun s hs => hkept s (Draft.not_isVariable_of_mem_fresh hs)
        (hlater s hs)⟩) hrun
  have hlow : ∀ {x y}, World.Agree (d₃.fresh d₄) x y → World.Kept (d₁.fresh d₄) x y :=
    fun hxy => (World.Kept.of_agree hxy).mono hg₁₃.fresh_right
  refine ⟨hf, ?_⟩
  rcases hcases with ⟨hfalse, hagree⟩ | ⟨htrue, n, u, v, -, hu, hcmd, hv⟩
  · rw [hfalse]
    exact ⟨hlow hagree, σ, rfl, (hσ.fresh hd hagree).of_scopes hsame⟩
  · obtain ⟨-, hkept, τ, hτ, hreflects⟩ := hbody hu hcmd
    rw [htrue]
    exact ⟨((hlow hu).trans (hkept.mono (hg₃.trans hg₄).fresh_left)).trans (hlow hv), τ, hτ,
      (hreflects.fresh h.neat hv).of_scopes (hscopes₄.trans hscopes₃)⟩

end Decides

/-- **Conditionals**: lines under a condition. -/
theorem Realizes.guarded (hd : d.Neat) (ht : Tests d setup d₁ c t) (h : Realizes d₁ d₂ lines R)
    (hg : d₁.Grows [] d₂) (hscopes : d₂.scopes = d₁.scopes) :
    ∃ guard d', (generateWhen c lines).run d₂ = ((), d') ∧ d₂.Grows guard d' ∧
      d'.scopes = d₂.scopes ∧ Realizes d d' (setup ++ guard) (Choice t R Eq) := by
  have hd₁ : d₁.Neat := hd.grow ht.adds.toGrows ht.adds.scopes_eq
  by_cases hne : lines = []
  · subst hne
    exact ⟨[], d₂, rfl, .refl d₂, rfl, ht.choice hd (.nothing h hscopes) hg⟩
  · obtain ⟨run, d₃, hrun₃, hg₃, hscopes₃, htidy₃, hstands⟩ :=
      asCommand_spec h.tidy hg hd₁.plain "if" (by decide) hne
    obtain ⟨guard, d₄, hlower⟩ : ∃ guard d₄, (c.lower run).run d₃ = (guard, d₄) := ⟨_, _, rfl⟩
    have hg₄ := Condition.grows_of_lower hlower
    have hguard : Decides c d₁ d₄ guard R Eq :=
      .guard hd₁ ht.steady h hg hg₃ hscopes hscopes₃ htidy₃ hstands hlower
    refine ⟨guard, d₄.write guard, ?_, (hg₃.trans hg₄).trans (.write d₄ guard),
      (Condition.scopes_of_lower hlower).trans hscopes₃,
      (ht.choice hd hguard (hg.trans (hg₃.trans hg₄))).write guard⟩
    rw [generateWhen, if_neg (by simpa using hne), run_bind, hrun₃, run_bind, hlower, run_emitAll]

section Alternative

variable {p : Program} {d₃ d₄ d₅ d₆ : Draft} {ran : Score} {id : ResourceId}
  {guard l : List String} {R' : State → State → Prop}

/-- Lines that take a step if a condition holds, and note in a flag whether they did. -/
structure Flags (c : Condition) (ran : Score) (d d' : Draft) (lines : List String)
    (R : State → State → Prop) : Prop where
  tidy : Draft.Tidy ∅ d d' lines
  runs : ∀ p : Program, p.Holds d d' → ∀ {depth w f w' σ}, d.Reflects w σ →
    sequence (function p depth) (lines.map Order.ofText) w = .ok f w' →
    f = .next ∧ World.Kept (d.fresh d') w w' ∧
      ((c.holds w = true ∧ w'.score? ran = some 1 ∧ ∃ τ, R σ τ ∧ d.Reflects w' τ) ∨
        (c.holds w = false ∧ w'.score? ran = some 0 ∧ d.Reflects w' σ))

/-- The first branch of an alternative raises its flag if it runs. -/
theorem branch_ok (hd : d₁.Neat) (h : Realizes d₁ d₂ lines R) (hscopes : d₂.scopes = d₁.scopes)
    (hg : d₁.Grows [] d₂) (hg₅ : d₂.Grows setup d₅) (hran : ran.Plain) (hmem : ran ∈ d₂.fresh d₅)
    (hid : id.Worded) (hlower : (c.lower (Line.call id)).run d₅ = (guard, d₆))
    (hc : c.Steady d₁) (hp : p.Holds d₁ d₆)
    (hget : p.get? id = some ((Line.set ran 1 :: lines).map Order.ofText)) {depth : Nat}
    {w w' : World} {f : Flow} {σ : State} (hσ : d₁.Reflects w σ)
    (hrun : sequence (function p depth) ((Line.set ran 0 :: guard).map Order.ofText) w = .ok f w') :
    f = .next ∧ World.Kept (d₁.fresh d₆) w w' ∧
      ((c.holds w = true ∧ w'.score? ran = some 1 ∧ ∃ τ, R σ τ ∧ d₁.Reflects w' τ) ∨
        (c.holds w = false ∧ w'.score? ran = some 0 ∧ d₁.Reflects w' σ)) := by
  have hg₆ := Condition.grows_of_lower hlower
  have hg₁₅ : d₁.Grows setup d₅ := hg.trans hg₅
  have hmem₅ : ran ∈ d₁.fresh d₅ := hg.fresh_right hmem
  have hmem₆ : ran ∈ d₁.fresh d₆ := hg₆.fresh_left hmem₅
  have hthen : ran ∉ d₁.fresh d₂ := fun hm => hg.fresh_disjoint hm hmem
  have hlast : ran ∉ d₅.fresh d₆ := hg₁₅.fresh_disjoint hmem₅
  have hvar : ¬ ran.IsVariable := Draft.not_isVariable_of_mem_fresh hmem
  have hp₂ := hp.left hg (hg₅.trans hg₆)
  have hstands := stands_call hid hget
  obtain ⟨u, hset, hrest⟩ := sequence_lines_cons
    (fun g u hcmd => (command_set_ok hran.worded hcmd).1) hrun
  obtain ⟨-, rfl⟩ := command_set_ok hran.worded hset
  have hagree₀ := agree_set hmem₆ w 0
  have hsame : c.holds (w.counted.setScore ran 0) = c.holds w := hagree₀.holds (hc.spares d₆)
  -- a run of the list of the branch
  have hbranch : ∀ {n u g v}, World.Agree (d₅.fresh d₆) (w.counted.setScore ran 0) u →
      command (function p n) (Order.ofText (Line.call id)) u = .ok g v → g = .next ∧
        World.Kept (d₁.fresh d₅) u v ∧ (∀ s ∈ d₅.fresh d₆, v.score? s = u.score? s) ∧
        v.score? ran = some 1 ∧ ∃ τ, R σ τ ∧ d₁.Reflects v τ := by
    intro n u g v hu hcmd
    obtain ⟨m, g', u', -, hu', hlist, hnext⟩ := hstands n u g v hcmd
    obtain ⟨v', hset, hbody⟩ := sequence_lines_cons
      (fun g u hcmd => (command_set_ok hran.worded hcmd).1) hlist
    obtain ⟨-, rfl⟩ := command_set_ok hran.worded hset
    have hall : World.Agree (d₁.fresh d₆) w (u'.counted.setScore ran 1) :=
      hagree₀.trans ((hu.mono hg₁₅.fresh_right).trans
        ((hu'.mono (Set.empty_subset _)).trans (agree_set hmem₆ u' 1)))
    obtain ⟨rfl, hkept, τ, hτ, hreflects⟩ := h.runs p hp₂ m _ g' v σ (hσ.fresh hd hall) hbody
    have hstep : ∀ s, ¬ s.IsVariable → s ∉ d₁.fresh d₂ → s ≠ ran → v.score? s = u.score? s := by
      intro s hs hF hne
      rw [hkept s hs hF, World.score?_setScore, if_neg hne]
      exact hu'.score s (Set.notMem_empty s)
    refine ⟨hnext rfl, fun s hs hF => ?_, fun s hs => ?_, ?_, τ, hτ,
      hreflects.of_scopes hscopes.symm⟩
    · refine hstep s hs (fun hm => hF (hg₅.fresh_left hm)) ?_
      rintro rfl
      exact hF hmem₅
    · refine hstep s (Draft.not_isVariable_of_mem_fresh hs) (fun hm => ?_) ?_
      · exact hg₁₅.fresh_disjoint (hg₅.fresh_left hm) hs
      · rintro rfl
        exact hlast hs
    · rw [hkept ran hvar hthen, score?_counted_setScore]
  obtain ⟨hf, hcases⟩ := Condition.lower_ok hlower (hg₁₅.options ▸ hd.plain) (hc.grow hg₁₅)
    (hp.right hg₁₅) (Line.joined_call hid)
    (fun n _ u g v hu hcmd => ⟨(hbranch hu hcmd).1, Or.inl (hbranch hu hcmd).2.2.1⟩) hrest
  have hlow : ∀ {x y}, World.Agree (d₅.fresh d₆) x y → World.Kept (d₁.fresh d₆) x y :=
    fun hxy => .of_agree (hxy.mono hg₁₅.fresh_right)
  rw [hsame] at hcases
  refine ⟨hf, ?_⟩
  rcases hcases with ⟨hfalse, hagree⟩ | ⟨htrue, n, u, v, -, hu, hcmd, hv⟩
  · refine ⟨(World.Kept.of_agree hagree₀).trans (hlow hagree), Or.inr ⟨hfalse, ?_, ?_⟩⟩
    · rw [hagree.score ran hlast, score?_counted_setScore]
    · exact (hσ.fresh hd hagree₀).fresh hd hagree
  · obtain ⟨-, hkept, -, hone, τ, hτ, hreflects⟩ := hbranch hu hcmd
    refine ⟨(((World.Kept.of_agree hagree₀).trans (hlow hu)).trans
      (hkept.mono hg₆.fresh_left)).trans (hlow hv),
      Or.inl ⟨htrue, ?_, τ, hτ, hreflects.fresh hd hv⟩⟩
    rw [hv.score ran hlast, hone]

/-- The second branch of an alternative runs if the flag of the first is not raised. -/
theorem otherwise_ok (hran : ran.Worded) {run : String} (hjoined : Joined run) (hd : d₃.Neat)
    (h : Realizes d₃ d₄ lines R') (hp : p.Holds d₃ d₄) (hstands : Stands p run lines) {depth : Nat}
    {w w' : World} {f : Flow} {σ : State} {n : Amount} (hσ : d₃.Reflects w σ)
    (hn : w.score? ran = some n)
    (hrun : command (function p depth) (Order.ofText (Line.guardAmount true ran 1 run)) w =
      .ok f w') :
    f = .next ∧ World.Kept (d₃.fresh d₄) w w' ∧
      ((n = 1 ∧ d₃.Reflects w' σ) ∨ (n ≠ 1 ∧ ∃ τ, R' σ τ ∧ d₄.Reflects w' τ)) := by
  have hev : ∀ F, World.Agree F w (w.counted.evaluated (Order.amountText ran 1)) := fun F =>
    (World.Agree.counted F w).trans (.evaluated F _ _)
  have hnone : ∀ s ∈ (∅ : Set Score), ¬ s.IsVariable := fun s hs => absurd hs (Set.notMem_empty s)
  have hσ' := hσ.agree hd hnone (hev ∅)
  rcases command_guardAmount_ok hran hjoined hrun with ⟨hpass, hcmd⟩ | ⟨hstop, rfl, rfl⟩
  · have hne : n ≠ 1 := by
      rintro rfl
      rw [hn] at hpass
      simp at hpass
    obtain ⟨hf, hkept, hτ⟩ := h.of_command hd hp hstands hσ' hcmd
    exact ⟨hf, (World.Kept.of_agree (hev _)).trans hkept, Or.inr ⟨hne, hτ⟩⟩
  · have heq : n = 1 := by
      rw [hn] at hstop
      simpa using hstop
    exact ⟨rfl, .of_agree (hev _), Or.inl ⟨heq, hσ'⟩⟩

namespace Flags

variable {first : List String}

/-- The list of the first branch raises the flag, and its guarded call stands behind the lowering of
the flag. -/
theorem of_lower (hd : d₁.Neat) (hc : c.Steady d₁) (h : Realizes d₁ d₂ lines R)
    (hscopes : d₂.scopes = d₁.scopes) (hg : d₁.Grows [] d₂) (hg₄ : d₂.Grows [] d₄)
    (htidy : Draft.Tidy ∅ d₁ d₄ lines) (hran : ran.Plain) (hmem : ran ∈ d₂.fresh d₄)
    (hlower : (c.lower (Line.call (d₄.options.list "if" (d₄.count (.list "if"))))).run
      ((d₄.write [Line.set ran 0]).withList "if" (Line.set ran 1 :: lines)) = (guard, d₆)) :
    d₄.Grows [Line.set ran 0] d₆ ∧ Flags c ran d₁ d₆ (Line.set ran 0 :: guard) R := by
  have hif : Lettered "if" := by decide
  have hg₁₄ : d₁.Grows [] d₄ := hg.trans hg₄
  have hgrows : d₄.Grows [Line.set ran 0]
      ((d₄.write [Line.set ran 0]).withList "if" (Line.set ran 1 :: lines)) :=
    (Draft.Grows.write d₄ [Line.set ran 0]).trans (.withList hif _ _)
  have hg₁₅ := hg₁₄.trans hgrows
  have hg₆ := Condition.grows_of_lower hlower
  have hid := (hg₁₄.options ▸ hd.plain : d₄.options.Plain).worded_list hif (d₄.count (.list "if"))
  have hcall := ((htidy.cons (.set hran 1)).write [Line.set ran 0]).withList
    (hg₁₄.trans (.write d₄ _)) hd.plain hif (List.cons_ne_nil _ _)
  refine ⟨hgrows.trans hg₆, (hcall.lowered hg₁₅ hlower hd.plain (hc.grow hg₁₅)).cons (.set hran 0),
    fun p hp depth w f w' σ hσ hrun => ?_⟩
  have hget := ((hp.right hg₁₄).left hgrows hg₆).get?_list (d := d₄.write [Line.set ran 0]) hif
  exact branch_ok hd h hscopes hg (hg₄.trans hgrows) hran (hgrows.fresh_left hmem) hid hlower hc hp
    hget hσ hrun

/-- The second branch has no lines. -/
theorem alone (hf : Flags c ran d₁ d₆ first R) (hd : d₁.Neat) (h : Realizes d₃ d₄ [] R')
    (hg₃ : d₁.Grows [] d₃) (hg₄ : d₃.Grows [] d₄) (hg₆ : d₄.Grows setup d₆)
    (hs₃ : d₃.scopes = d₁.scopes) (hs₄ : d₄.scopes = d₁.scopes) (hs₆ : d₆.scopes = d₄.scopes) :
    Decides c d₁ d₆ first R R' := by
  have hg₁₆ := hg₃.trans (hg₄.trans hg₆)
  refine ⟨hd.grow hg₁₆ (hs₆.trans hs₄), hf.tidy, fun p hp depth w f w' σ hσ hrun => ?_⟩
  obtain ⟨hnext, hkept, hcases⟩ := hf.runs p hp hσ hrun
  refine ⟨hnext, hkept, ?_⟩
  rcases hcases with ⟨htrue, -, τ, hτ, hw'⟩ | ⟨hfalse, -, hw'⟩
  · rw [htrue]
    exact ⟨τ, hτ, hw'.of_scopes (hs₆.trans hs₄)⟩
  · obtain ⟨-, -, τ, hτ, hreflects⟩ := h.runs p ((hp.right hg₃).left hg₄ hg₆) depth w' .next w' σ
      (hw'.of_scopes hs₃) (sequence_nil_ok.mpr ⟨rfl, rfl⟩)
    rw [hfalse]
    exact ⟨τ, hτ, hreflects.of_scopes hs₆⟩

/-- The command for the second branch stands behind the first, under the flag. -/
theorem otherwise {d₇ : Draft} {run : String} (hf : Flags c ran d₁ d₆ first R) (hd : d₁.Neat)
    (hd₃ : d₃.Neat) (h : Realizes d₃ d₄ lines R') (hran : ran.Plain)
    (hg₃ : d₁.Grows [] d₃) (hg₄ : d₃.Grows [] d₄) (hg₆ : d₄.Grows setup d₆) (hg₇ : d₆.Grows l d₇)
    (hs₃ : d₃.scopes = d₁.scopes) (hs₄ : d₄.scopes = d₁.scopes) (hs₇ : d₇.scopes = d₄.scopes)
    (htidy : Draft.Tidy ∅ d₁ d₇ [run])
    (hstands : ∀ p : Program, p.Holds d₆ d₇ → Stands p run lines) :
    Decides c d₁ d₇ (first ++ [Line.guardAmount true ran 1 run]) R R' := by
  have hg₁₆ := hg₃.trans (hg₄.trans hg₆)
  have hclear := htidy.clear run (by simp)
  have hbefore := hf.tidy.carry hg₁₆ hg₇ htidy
  refine ⟨hd.grow (hg₁₆.trans hg₇) (hs₇.trans hs₄), ⟨fun line hline => ?_, hbefore.bodies⟩,
    fun p hp depth w f w' σ hσ hrun => ?_⟩
  · rcases List.mem_append.mp hline with hline | hline
    · exact hbefore.clear line hline
    · exact List.mem_singleton.mp hline ▸ hclear.guardAmount true hran 1
  have hp₆ := hp.left hg₁₆ hg₇
  obtain ⟨u, hu, hrest⟩ := sequence_lines_append (fun g u hs => (hf.runs p hp₆ hσ hs).1) hrun
  obtain ⟨-, hkept, hcases⟩ := hf.runs p hp₆ hσ hu
  -- what the last line does, by the flag
  have hlast : ∀ {ρ : State} {n : Amount}, d₁.Reflects u ρ → u.score? ran = some n →
      f = .next ∧ World.Kept (d₁.fresh d₇) w w' ∧
        ((n = 1 ∧ d₃.Reflects w' ρ) ∨ (n ≠ 1 ∧ ∃ τ, R' ρ τ ∧ d₄.Reflects w' τ)) := by
    intro ρ n hρ hn
    obtain ⟨hnext, hkept', hends⟩ := otherwise_ok hran.worded hclear.joined hd₃ h
      ((hp.right hg₃).left hg₄ (hg₆.trans hg₇)) (hstands p (hp.right hg₁₆)) (hρ.of_scopes hs₃) hn
      (sequence_singleton_ok.mp hrest)
    have hlate := hkept'.mono fun s hs => hg₃.fresh_right ((hg₆.trans hg₇).fresh_left hs)
    exact ⟨hnext, (hkept.mono hg₇.fresh_left).trans hlate, hends⟩
  rcases hcases with ⟨htrue, hone, τ, hτ, hu'⟩ | ⟨hfalse, hzero, hu'⟩
  · obtain ⟨hnext, hkept', ⟨-, hw'⟩ | ⟨hne, -⟩⟩ := hlast hu' hone
    · rw [htrue]
      exact ⟨hnext, hkept', τ, hτ, hw'.of_scopes ((hs₇.trans hs₄).trans hs₃.symm)⟩
    · exact absurd rfl hne
  · obtain ⟨hnext, hkept', ⟨heq, -⟩ | ⟨-, τ, hτ, hw'⟩⟩ := hlast hu' hzero
    · exact absurd heq (by decide)
    · rw [hfalse]
      exact ⟨hnext, hkept', τ, hτ, hw'.of_scopes hs₇⟩

end Flags

/-- **Alternatives**: one of two branches by a condition.  The flag that the first one raises keeps
the second one from running, whatever the first one changes. -/
theorem Realizes.alternative {thenLines elseLines : List String} (hd : d.Neat)
    (ht : Tests d setup d₁ c t) (h : Realizes d₁ d₂ thenLines R) (hg₂ : d₁.Grows [] d₂)
    (hs₂ : d₂.scopes = d₁.scopes) (h' : Realizes (d₂.draw (.temp "ranIf")) d₄ elseLines R')
    (hg₄ : (d₂.draw (.temp "ranIf")).Grows [] d₄) (hs₄ : d₄.scopes = d₁.scopes) :
    ∃ rest d', (generateEither c (d₂.options.temp "ranIf" (d₂.count (.temp "ranIf"))) thenLines
        elseLines).run d₄ = ((), d') ∧ d₄.Grows rest d' ∧ d'.scopes = d₄.scopes ∧
      Realizes d d' (setup ++ rest) (Choice t R R') := by
  have hlet : Lettered "ranIf" := by decide
  have hd₁ : d₁.Neat := hd.grow ht.adds.toGrows ht.adds.scopes_eq
  have hdraw := Draft.Grows.draw d₂ (.temp "ranIf")
  have hg₃ : d₁.Grows [] (d₂.draw (.temp "ranIf")) := hg₂.trans hdraw
  have hran : (d₂.options.temp "ranIf" (d₂.count (.temp "ranIf"))).Plain :=
    h.neat.plain.plain_temp hlet _
  have hmem := Draft.mem_fresh_draw hlet hg₄
  generalize d₂.options.temp "ranIf" (d₂.count (.temp "ranIf")) = ran at hran hmem ⊢
  -- the lines of both branches are clear
  have tidyElse : Draft.Tidy ∅ d₂ d₄ elseLines :=
    (Draft.Tidy.of_adds (.temp d₂ "ranIf") (T := ∅) fun line hline =>
      absurd hline List.not_mem_nil).append h'.tidy hdraw hg₄
  have tidyBoth := h.tidy.append tidyElse hg₂ (hdraw.trans hg₄)
  -- the first branch under its condition
  obtain ⟨guard, d₆, hlower⟩ : ∃ guard d₆,
      (c.lower (Line.call (d₄.options.list "if" (d₄.count (.list "if"))))).run
        ((d₄.write [Line.set ran 0]).withList "if" (Line.set ran 1 :: thenLines)) =
          (guard, d₆) := ⟨_, _, rfl⟩
  have hs₆ : d₆.scopes = d₄.scopes := (Condition.scopes_of_lower hlower).trans rfl
  obtain ⟨hg₆, hflags⟩ := Flags.of_lower hd₁ ht.steady h hs₂ hg₂ (hdraw.trans hg₄)
    (tidyBoth.sub (List.subset_append_left _ _)) hran hmem hlower
  have hg₁₆ := (hg₃.trans hg₄).trans hg₆
  have hrun : ∀ rest : Gen Unit, (do
      emit (Line.set ran 0)
      let id ← synthesize "if" (Line.set ran 1 :: thenLines)
      emitAll (← c.lower (Line.call id))
      rest).run d₄ = rest.run (d₆.write guard) := by
    intro rest
    rw [run_bind, run_emit, run_bind, run_synthesize]
    show (c.lower (Line.call (d₄.options.list "if" (d₄.count (.list "if")))) >>= _).run _ = _
    rw [run_bind, hlower, run_bind, run_emitAll]
  by_cases hne : elseLines = []
  · subst hne
    have hdecides := hflags.alone hd₁ h' hg₃ hg₄ hg₆ hs₂ hs₄ hs₆
    exact ⟨Line.set ran 0 :: guard, d₆.write guard, hrun _, hg₆.trans (.write d₆ guard), hs₆,
      (ht.choice hd hdecides hg₁₆).write guard⟩
  · have tidyLast : Draft.Tidy ∅ d₁ d₆ elseLines :=
      (tidyBoth.sub (List.subset_append_right _ _)).carry (hg₃.trans hg₄) hg₆ hflags.tidy
    have hgw : d₆.Grows guard (d₆.write guard) := .write d₆ guard
    obtain ⟨run, d₇, hrun₇, hg₇, hs₇, tidyRun, hstands⟩ :=
      asCommand_spec (tidyLast.write guard) (hg₁₆.trans hgw) hd₁.plain "else" (by decide) hne
    have hdecides := hflags.otherwise hd₁ (h.neat.grow hdraw rfl) h' hran hg₃ hg₄ hg₆
      (hgw.trans hg₇) hs₂ hs₄ (hs₇.trans hs₆) tidyRun hstands
    refine ⟨_, d₇.write [Line.guardAmount true ran 1 run], ?_,
      (hg₆.trans hgw).trans (hg₇.trans (.write d₇ _)), hs₇.trans hs₆,
      (ht.choice hd hdecides ((hg₁₆.trans hgw).trans hg₇)).write _⟩
    refine (hrun _).trans ?_
    rw [if_neg (by simpa using hne), run_bind, hrun₇, run_emit]

end Alternative

end Packwright
