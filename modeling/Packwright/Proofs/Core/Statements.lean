import Packwright.Proofs.Core.Loops

/-!
# Statements of the core

Generation turns every statement of the core into lines that do what the interpreter does.

* `Stores`, `Score.store_spec`: the lines that give a score the value of an operand.
* `Realizes.declare`, `Realizes.assign`, `Realizes.update`, `Realizes.say`: the plain statements.
* `StmtTree.generates`, `StmtTrees.generates`: all statements.
-/

namespace Packwright

open Gen Run Words Packwright.Core

/-! ## Operands -/

/-- The value gives an amount: it stands for one, or it is a condition and gives 1 or 0. -/
inductive Value.Yields (w : World) : Value → Amount → Prop
  | number {v : Value} {n : Amount} (h : v.Denotes w n) : Yields w v n
  | truth {v : Value} {c : Condition} (h : v.condition? = some c) :
    Yields w v (if c.holds w then 1 else 0)

/-- The value reads no score that is drawn later. -/
inductive Value.Storable (d : Draft) : Value → Prop
  | number {v : Value} (h : v.Steady d) : Storable d v
  | truth {v : Value} {c : Condition} (h : v.condition? = some c) (hc : c.Steady d) : Storable d v

theorem Value.Storable.grow {d d' : Draft} {lines : List String} {v : Value} (h : v.Storable d)
    (hg : d.Grows lines d') : v.Storable d' := by
  cases h with
  | number h => exact .number (h.grow hg)
  | truth h hc => exact .truth h (hc.grow hg)

namespace Core

/-- Lines behind which a value gives the value of an operand. -/
structure Supplies (d : Draft) (lines : List String) (d' : Draft) (v : Value) (t : Operand) :
    Prop where
  adds : d.Adds lines d'
  storable : v.Storable d'
  runs : ∀ callee w f w', d.Ready w → sequence callee (lines.map Order.ofText) w = .ok f w' →
    f = .next ∧ World.Agree (d.fresh d') w w' ∧ ∃ n, t.eval (d.env w) = some n ∧ v.Yields w' n

/-- Operands of the core become lines that supply their values. -/
theorem OperandTree.generates {V : Set String} {e : Expr} {t : Operand} (h : OperandTree V e t)
    (hsafe : t.safe = true) {d : Draft} (hd : d.Neat) (hV : d.Binds V) :
    ∃ v lines d', e.generate.run.run d = (some v, d') ∧ Supplies d lines d' v t := by
  cases h with
  | number h =>
    obtain ⟨v, lines, d', hg, -, hc⟩ := h.generates hsafe hd hV
    refine ⟨v, lines, d', hg, hc.adds, .number hc.steady, fun callee w f w' hr hrun => ?_⟩
    obtain ⟨hf, hagree, n, hn, hvn⟩ := hc.runs callee w f w' hr hrun
    exact ⟨hf, hagree, n, hn, .number hvn⟩
  | truth h =>
    obtain ⟨v, c, lines, d', hg, hvc, ht⟩ := h.generates hsafe d hd hV
    refine ⟨v, lines, d', hg, ht.adds, .truth hvc ht.steady, fun callee w f w' hr hrun => ?_⟩
    obtain ⟨hf, hagree, heval⟩ := ht.runs callee w f w' hr hrun
    refine ⟨hf, hagree, _, ?_, .truth hvc⟩
    rw [Operand.eval, heval]
    rfl

end Core

/-! ## Storing -/

namespace Score

variable {d : Draft}

/-- The lines that bring the truth of a condition into a score of its own. -/
theorem ofCondition_spec (hd : d.options.Plain) {c : Condition} (hc : c.Steady d) :
    ∃ s lines d', (ofCondition c).run d = (s, d') ∧ d.Grows lines d' ∧ d'.scopes = d.scopes ∧
      Draft.Tidy ∅ d d' lines ∧ s.Plain ∧ s ∈ d.fresh d' ∧
      ∀ p : Program, p.Holds d d' → ∀ depth w f w',
        sequence (function p depth) (lines.map Order.ofText) w = .ok f w' →
        f = .next ∧ World.Agree (d.fresh d') w w' ∧
          w'.score? s = some (if c.holds w then 1 else 0) := by
  have hlet : Lettered "cond" := by decide
  obtain ⟨flag, hflag⟩ : ∃ s, s = d.options.temp "cond" (d.count (.temp "cond")) := ⟨_, rfl⟩
  have hplain : flag.Plain := hflag ▸ hd.plain_temp hlet _
  have hdraw := Draft.Grows.draw d (.temp "cond")
  have hset : d.Grows [Line.set flag 0] ((d.draw (.temp "cond")).write [Line.set flag 0]) :=
    hdraw.trans (.write _ _)
  obtain ⟨tests, d₁, hlower⟩ : ∃ tests d₁, (c.lower (Line.set flag 1)).run
      ((d.draw (.temp "cond")).write [Line.set flag 0]) = (tests, d₁) := ⟨_, _, rfl⟩
  have hg₁ := Condition.grows_of_lower hlower
  have hmem : flag ∈ d.fresh d₁ := by
    have := Draft.mem_fresh_draw hlet ((Draft.Grows.write _ [Line.set flag 0]).trans hg₁)
    rwa [← hflag] at this
  have hnot : flag ∉ ((d.draw (.temp "cond")).write [Line.set flag 0]).fresh d₁ := by
    have : _ ∉ (d.draw (.temp "cond")).fresh d₁ := Draft.not_mem_fresh_draw hlet
    rwa [← hflag] at this
  have hgrows : d.Grows (Line.set flag 0 :: tests) (d₁.write tests) :=
    hset.trans (hg₁.trans (.write d₁ tests))
  have hscopes := Condition.scopes_of_lower hlower
  refine ⟨flag, Line.set flag 0 :: tests, d₁.write tests, ?_, hgrows, hscopes, ?_, hplain, hmem,
    fun p hp depth w f w' hrun => ?_⟩
  · rw [ofCondition, run_bind, run_temp, ← hflag, run_bind, run_emit, run_bind, hlower, run_bind,
      run_emitAll, run_pure]
  · have tidyTests := Condition.tidy_lower c hlower hd (fun q hq => (hc q hq).1)
      (Line.Clear.set (T := ∅) hplain 1)
    have tidyDraw : Draft.Tidy ∅ d (d.draw (.temp "cond")) [Line.set flag 0] :=
      .of_adds (.temp d "cond") fun line hline => List.mem_singleton.mp hline ▸ .set hplain 0
    exact ((tidyDraw.write [Line.set flag 0]).append tidyTests hset hg₁).write tests
  · have hp₁ : p.Holds ((d.draw (.temp "cond")).write [Line.set flag 0]) d₁ := hp.right hset
    have htests : ∀ u v g, World.Agree (d.fresh d₁) w u →
        sequence (function p depth) (tests.map Order.ofText) u = .ok g v → g = .next ∧
          World.Agree (d.fresh d₁) u v ∧
          v.score? flag = if c.holds w then some 1 else u.score? flag := by
      intro u v g hu hs
      obtain ⟨hnext, hagree, hscore⟩ := (Condition.guarded_lower c hlower
        ⟨hd, hc.worded, (hc.grow hset).spares d₁, hp₁⟩ (Line.joined_set hplain.worded 1)
        (fun _ _ => Condition.settles_raise hplain.worded hnot u) hs).raise hplain.worded hnot
      rw [hu.holds (hc.spares d₁)] at hscore
      exact ⟨hnext, hagree.mono (Set.insert_subset hmem hset.fresh_right), hscore⟩
    obtain ⟨hf, hagree, -, hscore⟩ := sequence_tested_ok hplain.worded hmem htests hrun
    exact ⟨hf, hagree, hscore⟩

end Score

/-- The value that is stored in the world `w` is the amount of a score. -/
theorem Value.Yields.score? {w : World} {s : Score} {n : Amount} (h : Value.Yields w (.score s) n) :
    w.score? s = some n := by
  cases h with
  | number h =>
    cases h with
    | score h => exact h
  | truth h => cases h

/-- The lines that are written when a value is stored in a score: behind them the score holds the
value. -/
structure Stores (d : Draft) (target : Score) (v : Value) (lines : List String) (d' : Draft) :
    Prop where
  run_eq : (target.store v).run.run d = (some (), d')
  grows : d.Grows lines d'
  scopes_eq : d'.scopes = d.scopes
  tidy : Draft.Tidy ∅ d d' lines
  runs : ∀ p : Program, p.Holds d d' → ∀ depth w f w' n, v.Yields w n →
    sequence (function p depth) (lines.map Order.ofText) w = .ok f w' →
    f = .next ∧ World.Agree (insert target (d.fresh d')) w w' ∧ w'.score? target = some n

namespace Stores

variable {d : Draft} {target : Score}

/-- A value that is known is set. -/
theorem known (hp : target.Plain) {v : Value} {m : Amount}
    (hrun : (target.store v).run.run d = (some (), d.emit (Line.set target m)))
    (hv : ∀ w n, v.Yields w n → n = m) :
    Stores d target v [Line.set target m] (d.emit (Line.set target m)) := by
  have hadds : d.Adds [Line.set target m] (d.emit (Line.set target m)) := .emit d (.set hp m)
  refine ⟨hrun, hadds.toGrows, hadds.scopes_eq, .of_adds hadds hadds.clear,
    fun p _ depth w f w' n hn hseq => ?_⟩
  obtain rfl := hv w n hn
  obtain ⟨rfl, rfl⟩ := command_set_ok hp.worded (sequence_singleton_ok.mp hseq)
  exact ⟨rfl, agree_set (Set.mem_insert target _) w n, score?_counted_setScore w _ n⟩

/-- A score holds its own amount. -/
theorem itself (d : Draft) (target : Score) : Stores d target (.score target) [] d := by
  refine ⟨?_, .refl d, rfl, .of_adds (.refl d) fun line hline => absurd hline List.not_mem_nil,
    fun p _ depth w f w' n hn hseq => ?_⟩
  · rw [Score.store, if_pos rfl]
    rfl
  · obtain ⟨rfl, rfl⟩ := sequence_nil_ok.mp hseq
    exact ⟨rfl, .refl _ _, hn.score?⟩

/-- The amount of another score is copied. -/
theorem copy (hp : target.Plain) {source : Score} (hsource : source.Plain)
    (hne : source ≠ target) : Stores d target (.score source) [Line.operation target "=" source]
      (d.emit (Line.operation target "=" source)) := by
  have hadds : d.Adds [Line.operation target "=" source] _ :=
    .emit d (.operation hp hsource (by decide) (c := .assign) rfl)
  refine ⟨?_, hadds.toGrows, hadds.scopes_eq, .of_adds hadds hadds.clear,
    fun p _ depth w f w' n hn hseq => ?_⟩
  · rw [Score.store, if_neg hne]
    rfl
  · obtain ⟨rfl, rfl⟩ := command_copy_ok hp.worded hsource.worded (sequence_singleton_ok.mp hseq)
    refine ⟨rfl, agree_set (Set.mem_insert target _) w _, ?_⟩
    rw [score?_counted_setScore, amount_of_score? hn.score?]

/-- The truth of a condition goes through a score of its own. -/
theorem condition (hd : d.options.Plain) (hp : target.Plain) {c : Condition} (hc : c.Steady d) :
    ∃ lines d', Stores d target (.condition c) lines d' := by
  obtain ⟨flag, lines, d₁, hrun₁, hg₁, hs₁, tidy₁, hflag, -, hdoes⟩ := Score.ofCondition_spec hd hc
  have hadds : d₁.Adds [Line.operation target "=" flag] _ :=
    .emit d₁ (.operation hp hflag (by decide) (c := .assign) rfl)
  refine ⟨lines ++ [Line.operation target "=" flag], d₁.emit (Line.operation target "=" flag), ?_,
    hg₁.trans hadds.toGrows, hadds.scopes_eq.trans hs₁,
    tidy₁.append (.of_adds hadds hadds.clear) hg₁ hadds.toGrows,
    fun p hp' depth w f w' n hn hseq => ?_⟩
  · rw [Score.store, run_andThen (run_lift _ d), hrun₁]
    rfl
  · have hp₁ := hp'.left hg₁ hadds.toGrows
    obtain ⟨u, hu, hrest⟩ := sequence_lines_append
      (fun g u hs => (hdoes p hp₁ depth w g u hs).1) hseq
    obtain ⟨-, hagree, hscore⟩ := hdoes p hp₁ depth w _ u hu
    obtain ⟨rfl, rfl⟩ := command_copy_ok hp.worded hflag.worded (sequence_singleton_ok.mp hrest)
    have hfirst := hagree.mono fun s hs =>
      Set.mem_insert_of_mem target (hadds.toGrows.fresh_left hs)
    refine ⟨rfl, hfirst.trans (agree_set (Set.mem_insert target _) u _), ?_⟩
    rw [score?_counted_setScore, amount_of_score? hscore]
    cases hn with
    | number h => cases h
    | truth h =>
      cases h
      rfl

end Stores

/-- The lines that store a value in a score. -/
theorem Score.store_spec {d : Draft} (hd : d.options.Plain) {target : Score} (hp : target.Plain)
    {v : Value} (hv : v.Storable d) : ∃ lines d', Stores d target v lines d' := by
  cases hv with
  | number hv =>
    cases hv with
    | int m =>
      refine ⟨_, _, .known hp rfl fun w n hn => ?_⟩
      cases hn with
      | number h =>
        cases h
        rfl
      | truth h => cases h
    | @score source hsource _ =>
      by_cases heq : source = target
      · exact heq ▸ ⟨_, _, .itself d source⟩
      · exact ⟨_, _, .copy hp hsource heq⟩
  | truth h hc =>
    rcases condition?_cases h with rfl | ⟨b, rfl, rfl⟩
    · exact Stores.condition hd hp hc
    · refine ⟨_, _, .known hp (m := if b then 1 else 0) rfl fun w n hn => ?_⟩
      cases hn with
      | number h => cases h
      | truth h =>
        cases h
        rw [Condition.holds_constant]

/-! ## Giving a variable a value -/

/-- A run of the lines gives a score the value that belongs to the state, and changes no other score
but those that were drawn on the way. -/
def Gives (d d' : Draft) (lines : List String) (target : Score) (value : State → Option Amount) :
    Prop :=
  ∀ p : Program, p.Holds d d' → ∀ depth w f w' σ, d.Reflects w σ →
    sequence (function p depth) (lines.map Order.ofText) w = .ok f w' →
    f = .next ∧ World.Agree (insert target (d.fresh d')) w w' ∧
      ∃ n, value σ = some n ∧ w'.score? target = some n

section Giving

variable {d d₁ d₂ : Draft} {lines : List String} {v : Value} {target : Score}

/-- An operand that is stored. -/
theorem Core.Supplies.gives {t : Operand} (h : Supplies d lines d₁ v t) (hd : d.Neat)
    (hadds : d₁.Adds [] d₂) (hp : target.Plain) :
    ∃ rest d₃, (target.store v).run.run d₂ = (some (), d₃) ∧ d₂.Grows rest d₃ ∧
      d₃.scopes = d₂.scopes ∧ Draft.Tidy ∅ d d₃ (lines ++ rest) ∧
      Gives d d₃ (lines ++ rest) target fun σ => t.eval σ.lookup? := by
  have hboth : d.Adds lines d₂ := by simpa using h.adds.trans hadds
  obtain ⟨rest, d₃, hrun, hg, hs, tidy, hstore⟩ := Score.store_spec (hboth.plain hd.plain) hp
    (h.storable.grow hadds.toGrows)
  refine ⟨rest, d₃, hrun, hg, hs,
    (Draft.Tidy.of_adds hboth hboth.clear).append tidy hboth.toGrows hg,
    fun p hp' depth w f w' σ hσ hrun' => ?_⟩
  obtain ⟨u, hu, hrest⟩ := sequence_lines_append
    (fun g u hs => (h.runs _ w g u hσ.ready hs).1) hrun'
  obtain ⟨-, hagree, n, hn, hv⟩ := h.runs _ w _ u hσ.ready hu
  obtain ⟨hf, hagree', hscore⟩ := hstore p (hp'.right hboth.toGrows) depth u f w' n hv hrest
  rw [hσ.env_eq] at hn
  refine ⟨hf, (hagree.mono fun s hs => ?_).trans (hagree'.mono ?_), n, hn, hscore⟩
  · exact Set.mem_insert_of_mem _ ((hadds.toGrows.trans hg).fresh_left hs)
  · exact Set.insert_subset_insert hboth.toGrows.fresh_right

/-- A number that changes a variable by an operator. -/
theorem Core.Computes.gives {a : Number} (h : Computes d lines d₁ v a) (hd : d.Neat) (op : Arith)
    {x : String} (hx : d.lookup? x = some (.score target)) :
    ∃ rest d₂, (target.modify op v).run.run d₁ = (some (), d₂) ∧ d₁.Adds rest d₂ ∧
      Gives d d₂ (lines ++ rest) target fun σ =>
        Number.eval σ.lookup? (.arith op (.variable x) a) := by
  obtain ⟨hvar, hp, -⟩ := hd.of_lookup? hx
  obtain ⟨rest, d₂, hrun, hadds, hmodify⟩ := Score.modify_spec (h.adds.plain hd.plain) hp
    (Draft.old_of_isVariable hvar) op h.steady
  refine ⟨rest, d₂, hrun, hadds, fun p _ depth w f w' σ hσ hrun' => ?_⟩
  obtain ⟨u, hu, hrest⟩ := sequence_lines_append
    (fun g u hs => (h.runs _ w g u hσ.ready hs).1) hrun'
  obtain ⟨-, hagree, n, hn, hv⟩ := h.runs _ w _ u hσ.ready hu
  obtain ⟨m, hm, hscore⟩ := hσ.values.lookup hx
  have hold : u.score? target = some m :=
    (hagree.score target fun hmem => Draft.not_isVariable_of_mem_fresh hmem hvar).trans hscore
  obtain ⟨hf, hagree', hnew⟩ := hmodify _ u f w' m n hold hv hrest
  rw [hσ.env_eq] at hn
  refine ⟨hf, (hagree.mono fun s hs => ?_).trans (hagree'.mono ?_), _, ?_, hnew⟩
  · exact Set.mem_insert_of_mem _ (hadds.toGrows.fresh_left hs)
  · exact Set.insert_subset_insert h.adds.toGrows.fresh_right
  · have hm' : σ.lookup? x = some m := hm
    show Number.eval σ.lookup? (.arith op (.variable x) a) = _
    rw [Number.eval, Number.eval, hm', hn]
    rfl

variable {x : String} {value : State → Option Amount}

/-- **Assignments**: the variable has the score. -/
theorem Realizes.assign (hd : d.Neat) (hx : d.lookup? x = some (.score target))
    (h : Gives d d₁ lines target value) (tidy : Draft.Tidy ∅ d d₁ lines) (hg : d.Grows lines d₁)
    (hs : d₁.scopes = d.scopes) :
    Realizes d d₁ lines fun σ τ => ∃ n, value σ = some n ∧ σ.assign x n = some τ := by
  obtain ⟨hvar, -, -⟩ := hd.of_lookup? hx
  refine ⟨hd.grow hg hs, tidy, fun p hp depth w f w' σ hσ hrun => ?_⟩
  obtain ⟨hf, hagree, n, hn, hscore⟩ := h p hp depth w f w' σ hσ hrun
  have hothers : ∀ t ∈ scoresOf d.scopes, t ≠ target → w'.score? t = w.score? t := by
    intro t ht hne
    refine hagree.score t fun hmem => ?_
    rcases hmem with rfl | hmem
    · exact hne rfl
    · exact Draft.not_isVariable_of_mem_fresh hmem (hd.owned t ht).1
  obtain ⟨frames, hassign, hmirrors⟩ := hσ.values.assign hd.apart hx hscore hothers
  refine ⟨hf, .of_agree_insert hvar hagree, { σ with scopes := frames }, ⟨n, hn, ?_⟩, ?_, ?_⟩
  · rw [State.assign, hassign]
    rfl
  · exact hs ▸ hmirrors
  · exact hagree.output.trans hσ.said

theorem Draft.bind_of_opened {d : Draft} (h : d.scopes ≠ []) (x : String) (v : Value) :
    ∃ scope outer, d.scopes = scope :: outer ∧
      d.bind x v = { d with scopes := scope.put x v :: outer } := by
  obtain ⟨scope, outer, hs⟩ := List.exists_cons_of_ne_nil h
  exact ⟨scope, outer, hs, by rw [Draft.bind, hs]⟩

/-- A new name beside those that are bound. -/
theorem Draft.Binds.declare {V : Set String} (h : d.Binds V) (ho : d.scopes ≠ []) (x : String)
    (s : Score) : (d.bind x (.score s)).Binds (insert x V) := by
  obtain ⟨scope, outer, hs, hbind⟩ := Draft.bind_of_opened ho x (.score s)
  rw [hbind]
  intro y hy
  by_cases hyx : y = x
  · exact ⟨s, by simp [Draft.lookup?, hyx, Table.get?_put_self]⟩
  · obtain ⟨t, ht⟩ := h y (hy.resolve_left hyx)
    refine ⟨t, ?_⟩
    rw [Draft.lookup?, hs] at ht
    rw [Draft.lookup?]
    rw [List.findSome?_cons] at ht ⊢
    rwa [Table.get?_put_of_ne _ _ hyx]

/-- **Declarations**: the score is new, and becomes that of the variable. -/
theorem Realizes.declare (hd : d.Neat) (hvar : target.IsVariable) (hp : target.Plain)
    (hnew : target.entry ∉ d.taken) (htaken : target.entry ∈ d₁.taken)
    (h : Gives d d₁ lines target value) (tidy : Draft.Tidy ∅ d d₁ lines) (hg : d.Grows lines d₁)
    (hs : d₁.scopes = d.scopes) (x : String) :
    Realizes d (d₁.bind x (.score target)) lines fun σ τ =>
      ∃ n, value σ = some n ∧ τ = σ.declare x n := by
  have hneat := hd.declare (x := x) hvar hp hnew hg hs htaken
  obtain ⟨scope, outer, hscopes, hbind⟩ := Draft.bind_of_opened (hs ▸ hd.opened) x (.score target)
  rw [hbind] at hneat ⊢
  refine ⟨hneat, ⟨tidy.clear, tidy.bodies⟩, fun p hp depth w f w' σ hσ hrun => ?_⟩
  obtain ⟨hf, hagree, n, hn, hscore⟩ := h p hp depth w f w' σ hσ hrun
  have hothers : ∀ t ∈ scoresOf d.scopes, w'.score? t = w.score? t := by
    intro t ht
    refine hagree.score t fun hmem => ?_
    rcases hmem with rfl | hmem
    · exact hnew (hd.owned t ht).2.2
    · exact Draft.not_isVariable_of_mem_fresh hmem (hd.owned t ht).1
  refine ⟨hf, .of_agree_insert hvar hagree, σ.declare x n, ⟨n, hn, rfl⟩, ?_, ?_⟩
  · have hvalues := hσ.values
    rw [← hs, hscopes] at hvalues hothers
    cases hframes : σ.scopes with
    | nil =>
      rw [hframes] at hvalues
      exact hvalues.elim
    | cons frame frames =>
      rw [hframes] at hvalues
      show Mirrors w' (scope.put x (.score target) :: outer) (σ.declare x n).scopes
      rw [State.declare, hframes]
      exact hvalues.declare hscore hothers
  · refine (hagree.output.trans hσ.said).trans ?_
    rw [State.declare]
    split <;> rfl

end Giving

/-- **Saying**: the line is what is said. -/
theorem Realizes.say {d : Draft} (hd : d.Neat) {text : String} (h : IsPlain text) :
    Realizes d (d.write ["say " ++ text]) ["say " ++ text] fun σ τ => τ = σ.say text := by
  have hclear : Line.Clear ∅ ("say " ++ text) := .say h
  have tidy : Draft.Tidy ∅ d d ["say " ++ text] := .of_adds (.refl d) fun line hline =>
    List.mem_singleton.mp hline ▸ hclear
  refine ⟨⟨hd.plain, hd.opened, hd.apart, hd.owned⟩, tidy.write _,
    fun p _ depth w f w' σ hσ hrun => ?_⟩
  have hcmd := sequence_singleton_ok.mp hrun
  rw [Order.ofText_say h] at hcmd
  have ho := (command_ok.mp hcmd).2
  cases ho
  exact ⟨rfl, fun _ _ _ => rfl, _, rfl, hσ.values.congr fun _ _ => rfl,
    congrArg (·.push ("say " ++ text)) hσ.said⟩

/-! ## Steps of generation -/

/-- The step writes lines that do what the relation allows; behind it, some names are bound. -/
def Generates (act : Gen Unit) (d : Draft) (V : Set String) (R : State → State → Prop) : Prop :=
  ∃ lines d', act.run d = ((), d') ∧ d.Grows lines d' ∧ d'.Binds V ∧ Realizes d d' lines R

namespace Generates

variable {act act' : Gen Unit} {d : Draft} {V V' : Set String} {R R' : State → State → Prop}

theorem mono (h : Generates act d V R) (hR : ∀ σ τ, R σ τ → R' σ τ) : Generates act d V R' := by
  obtain ⟨lines, d', hrun, hg, hV, hreal⟩ := h
  exact ⟨lines, d', hrun, hg, hV, hreal.mono hR⟩

/-- One step behind another. -/
theorem andThen (h : Generates act d V R)
    (h' : ∀ d' : Draft, d'.Neat → d'.Binds V → Generates act' d' V' R') :
    Generates (do act; act') d V' fun σ τ => ∃ σ₁, R σ σ₁ ∧ R' σ₁ τ := by
  obtain ⟨lines, d₁, hrun, hg, hV, hreal⟩ := h
  obtain ⟨lines', d₂, hrun', hg', hV', hreal'⟩ := h' d₁ hreal.neat hV
  exact ⟨lines ++ lines', d₂, by rw [run_bind, hrun, hrun'], hg.trans hg', hV',
    hreal.andThen hreal' hg hg'⟩

/-- A step in a scope of its own. -/
theorem inScope (hd : d.Neat) (hV : d.Binds V) (h : Generates act d.pushScope V' R) :
    Generates (Gen.inScope act) d V (Inside R) := by
  obtain ⟨lines, d₁, hrun, hg, -, hreal⟩ := h
  obtain ⟨hscopes, hgrows⟩ := hg.popScope
  refine ⟨lines, d₁.popScope, ?_, hgrows, hV.of_scopes hscopes, hreal.inside hd hg⟩
  rw [run_inScope, hrun]

/-- A branch: its lines are captured, and its scope is its own. -/
theorem branch (hd : d.Neat) (hV : d.Binds V)
    (h : ∀ d' : Draft, d'.Neat → d'.Binds V → Generates act d' V' R) :
    ∃ lines d₁, (capture (Gen.inScope act)).run d = (((), lines), d₁) ∧ d.Grows [] d₁ ∧
      d₁.scopes = d.scopes ∧ Realizes d d₁ lines (Inside R) := by
  have hd' := hd.pushFrame
  obtain ⟨lines, d₁, hrun, hg, -, hreal⟩ :=
    h d.pushFrame.pushScope hd'.pushScope hV
  obtain ⟨hscopes, hgrows⟩ := hg.popScope
  have hinside := hreal.inside hd' hg
  obtain ⟨hcapture, hreal'⟩ := hinside.captured hd hgrows hscopes
  refine ⟨lines, d₁.popScope.popFrame, ?_, hcapture, hscopes, hreal'⟩
  have hact : (Gen.inScope act).run d.pushFrame = ((), d₁.popScope) := by rw [run_inScope, hrun]
  rw [run_capture _ d (by rw [hact]; exact hgrows), hact]

end Generates

/-! ## Statements -/

namespace Core

theorem runs_of_choice {c : Truth} {s : Statement} {σ τ : State}
    (h : Choice c (Inside (Runs s)) Eq σ τ) : Runs (.ifElse c s none) σ τ := by
  rcases h with ⟨hc, τ', hruns, rfl⟩ | ⟨hc, rfl⟩
  · exact runs_then hc hruns
  · exact runs_skip hc

theorem runs_of_alternative {c : Truth} {s s' : Statement} {σ τ : State}
    (h : Choice c (Inside (Runs s)) (Inside (Runs s')) σ τ) : Runs (.ifElse c s (some s')) σ τ := by
  rcases h with ⟨hc, τ', hruns, rfl⟩ | ⟨hc, τ', hruns, rfl⟩
  · exact runs_then hc hruns
  · exact runs_else hc hruns

theorem runs_of_repeat {c : Truth} {s : Statement} {σ τ : State}
    (h : Repeat c (Inside (Runs s)) σ τ) : Runs (.while c s) σ τ := by
  induction h with
  | stop hc => exact runs_while_false hc
  | round hc hR _ ih =>
    obtain ⟨σ', hruns, rfl⟩ := hR
    exact runs_while_true hc hruns ih

end Core

theorem Draft.Adds.newVariable (name : String) (d : Draft) :
    d.Adds [] ((Gen.newVariable name).run d).2 := by
  have hsilent := Silent.newVariable name
  refine ⟨hsilent.grow d, hsilent.scopes d, ?_, fun purpose => ?_, fun _ h =>
    absurd h List.not_mem_nil⟩
  · rw [run_newVariable]
    split <;> rfl
  · rw [run_newVariable]
    split
    · rfl
    · show ((d.counters.put (.variable name) _).get? (.list purpose)).getD 0 = _
      rw [Table.get?_put_of_ne _ _ (by simp)]
      rfl

theorem run_apply {o : Operation} {target : Score} {v : Value} {d d' : Draft} {m : OptionT Gen Unit}
    (h : m.run.run d = (some (), d'))
    (happly : o.rule.apply (.score target) v = (do m; failure)) :
    (discard (o.rule.apply (.score target) v).run : Gen Unit).run d = ((), d') := by
  have hnone : (o.rule.apply (.score target) v).run.run d = (none, d') := by
    rw [happly, run_andThen h]
    rfl
  show (((o.rule.apply (.score target) v).run >>= fun _ => pure ()) : Gen Unit).run d = _
  rw [run_bind, hnone]
  rfl

namespace Core

variable {V : Set String} {e : Expr} {d : Draft}

-- Every sort of statement is generated below, so the equations are made once and here.
attribute [local simp] Stmt.generate generateAll

theorem OperandTree.declares {t : Operand} (he : OperandTree V e t) (hsafe : t.safe = true)
    (hd : d.Neat) (hV : d.Binds V) {declared : Declared}
    (hname : ∀ c ∈ declared.name.toList, isInner c = true) {o : Operation} (ho : o.rule = .store)
    (span : Span) :
    Generates (Stmt.var span declared (some e) (some o)).generate d (insert declared.name V)
      (Runs (.declare declared.name t)) := by
  obtain ⟨v, lines, d₁, hrun, hsupply⟩ := he.generates hsafe hd hV
  obtain ⟨s, d₂, hnew⟩ : ∃ s d₂, (newVariable declared.name).run d₁ = (s, d₂) := ⟨_, _, rfl⟩
  obtain ⟨hvar, hplain, hfree, htaken⟩ :=
    newVariable_spec hname (hsupply.adds.plain hd.plain) hnew
  have hadds : d₁.Adds [] d₂ := by
    have := Draft.Adds.newVariable declared.name d₁
    rwa [hnew] at this
  obtain ⟨rest, d₃, hstore, hg₃, hs₃, tidy, hgives⟩ := hsupply.gives hd hadds hplain
  have hs : d₃.scopes = d.scopes := hs₃.trans (hadds.scopes_eq.trans hsupply.adds.scopes_eq)
  have hg : d.Grows (lines ++ rest) d₃ := hsupply.adds.toGrows.trans (hadds.toGrows.trans hg₃)
  have hreal := Realizes.declare hd hvar hplain
    (fun hmem => hfree (hsupply.adds.toGrows.taken hmem)) (hg₃.taken htaken) hgives tidy hg hs
    declared.name
  refine ⟨lines ++ rest, d₃.bind declared.name (.score s), ?_, ?_, ?_, hreal.mono ?_⟩
  · rw [Stmt.generate, run_bind, hrun, run_bind, hnew]
    show ((discard (o.rule.apply (.score s) v).run >>= fun _ =>
      Gen.bind declared.name (.score s)) : Gen Unit).run d₂ = _
    rw [run_bind, run_apply hstore (by rw [ho]; rfl)]
    rfl
  · have := hg.trans (Draft.Grows.bind d₃ declared.name (.score s))
    rwa [List.append_nil] at this
  · exact (hV.of_scopes hs).declare (hs ▸ hd.opened) _ _
  · rintro σ τ ⟨n, hn, rfl⟩
    exact runs_declare hn

theorem OperandTree.assigns {t : Operand} (he : OperandTree V e t) (hsafe : t.safe = true)
    (hd : d.Neat) (hV : d.Binds V) {x : String} (hx : x ∈ V) {o : Operation}
    (ho : o.rule = .store) (span : Span) (i : Info) :
    Generates (Stmt.assign span (.name i x) .assign e (some o)).generate d V
      (Runs (.assign x t)) := by
  obtain ⟨s, hs⟩ := hV x hx
  obtain ⟨v, lines, d₁, hrun, hsupply⟩ := he.generates hsafe hd hV
  obtain ⟨rest, d₂, hstore, hg₂, hs₂, tidy, hgives⟩ := hsupply.gives hd (.refl d₁)
    (hd.of_lookup? hs).2.1
  have hscopes : d₂.scopes = d.scopes := hs₂.trans hsupply.adds.scopes_eq
  have hg := hsupply.adds.toGrows.trans hg₂
  refine ⟨lines ++ rest, d₂, ?_, hg, hV.of_scopes hscopes,
    (Realizes.assign hd hs hgives tidy hg hscopes).mono ?_⟩
  · rw [Stmt.generate, run_bind, Expr.generate_name i hs, run_bind, hrun]
    exact run_apply hstore (by rw [ho]; rfl)
  · rintro σ τ ⟨n, hn, hτ⟩
    exact runs_assign hn hτ

theorem NumberTree.updates {a : Number} {k : Kind} (he : NumberTree V e a k) (hsafe : a.safe = true)
    (hd : d.Neat) (hV : d.Binds V) {x : String} (hx : x ∈ V) {op : Arith} {o : Operation}
    (ho : o.rule = .modify op) (span : Span) (i : Info) :
    Generates (Stmt.assign span (.name i x) (.update op) e (some o)).generate d V
      (Runs (.update x op a)) := by
  obtain ⟨s, hs⟩ := hV x hx
  obtain ⟨v, lines, d₁, hrun, -, hcompute⟩ := he.generates hsafe hd hV
  obtain ⟨rest, d₂, hmodify, hadds, hgives⟩ := hcompute.gives hd op hs
  have hboth := hcompute.adds.trans hadds
  refine ⟨lines ++ rest, d₂, ?_, hboth.toGrows, hV.of_scopes hboth.scopes_eq,
    (Realizes.assign hd hs hgives (.of_adds hboth hboth.clear) hboth.toGrows
      hboth.scopes_eq).mono ?_⟩
  · rw [Stmt.generate, run_bind, Expr.generate_name i hs, run_bind, hrun]
    exact run_apply hmodify (by rw [ho]; rfl)
  · rintro σ τ ⟨n, hn, hτ⟩
    exact runs_update hn hτ

theorem TruthTree.guards {c : Truth} {k : Kind} (he : TruthTree V e c k) (hsafe : c.safe = true)
    (hd : d.Neat) (hV : d.Binds V) {s : Stmt} {t : Statement} {V' : Set String}
    (h : ∀ d' : Draft, d'.Neat → d'.Binds V → Generates s.generate d' V' (Runs t)) (span : Span) :
    Generates (Stmt.ifElse span e s none).generate d V (Runs (.ifElse c t none)) := by
  obtain ⟨condition, setup, d₁, hrun, htests⟩ := he.generateCondition hsafe hd hV
  have hd₁ := hd.grow htests.adds.toGrows htests.adds.scopes_eq
  obtain ⟨lines, d₂, hrun₂, hg₂, hs₂, hreal⟩ :=
    Generates.branch hd₁ (hV.of_scopes htests.adds.scopes_eq) h
  obtain ⟨guard, d₃, hrun₃, hg₃, hs₃, hguarded⟩ := Realizes.guarded hd htests hreal hg₂ hs₂
  refine ⟨setup ++ guard, d₃, ?_, htests.adds.toGrows.trans (hg₂.trans hg₃),
    hV.of_scopes (hs₃.trans (hs₂.trans htests.adds.scopes_eq)),
    hguarded.mono fun σ τ => runs_of_choice⟩
  rw [Stmt.generate, run_bind, hrun]
  show (capture (inScope s.generate) >>= fun r => generateWhen condition r.2).run d₁ = _
  rw [run_bind, hrun₂, hrun₃]

theorem TruthTree.alternates {c : Truth} {k : Kind} (he : TruthTree V e c k)
    (hsafe : c.safe = true) (hd : d.Neat) (hV : d.Binds V) {s s' : Stmt} {t t' : Statement}
    {V' V'' : Set String}
    (h : ∀ d' : Draft, d'.Neat → d'.Binds V → Generates s.generate d' V' (Runs t))
    (h' : ∀ d' : Draft, d'.Neat → d'.Binds V → Generates s'.generate d' V'' (Runs t'))
    (span : Span) :
    Generates (Stmt.ifElse span e s (some s')).generate d V (Runs (.ifElse c t (some t'))) := by
  obtain ⟨condition, setup, d₁, hrun, htests⟩ := he.generateCondition hsafe hd hV
  have hd₁ := hd.grow htests.adds.toGrows htests.adds.scopes_eq
  have hV₁ := hV.of_scopes htests.adds.scopes_eq
  obtain ⟨thenLines, d₂, hrun₂, hg₂, hs₂, hreal⟩ := Generates.branch hd₁ hV₁ h
  have hdraw := Draft.Grows.draw d₂ (.temp "ranIf")
  obtain ⟨elseLines, d₄, hrun₄, hg₄, hs₄, hreal'⟩ :=
    Generates.branch (hreal.neat.grow hdraw rfl) (hV₁.of_scopes hs₂) h'
  have hs : d₄.scopes = d₁.scopes := hs₄.trans hs₂
  obtain ⟨rest, d₅, hrun₅, hg₅, hs₅, hall⟩ :=
    Realizes.alternative hd htests hreal hg₂ hs₂ hreal' hg₄ hs
  refine ⟨setup ++ rest, d₅, ?_,
    htests.adds.toGrows.trans (hg₂.trans (hdraw.trans (hg₄.trans hg₅))),
    hV.of_scopes (hs₅.trans (hs.trans htests.adds.scopes_eq)),
    hall.mono fun σ τ => runs_of_alternative⟩
  rw [Stmt.generate, run_bind, hrun]
  show (capture (inScope s.generate) >>= fun r => temp "ranIf" >>= fun ran =>
    capture (inScope s'.generate) >>= fun r' => generateEither condition ran r.2 r'.2).run d₁ = _
  rw [run_bind, hrun₂, run_bind, run_temp, run_bind, hrun₄, hrun₅]

theorem TruthTree.loops {c : Truth} {k : Kind} (he : TruthTree V e c k) (hsafe : c.safe = true)
    (hd : d.Neat) (hV : d.Binds V) {s : Stmt} {t : Statement} {V' : Set String}
    (h : ∀ d' : Draft, d'.Neat → d'.Binds V → Generates s.generate d' V' (Runs t)) (span : Span) :
    Generates (Stmt.while span e s).generate d V (Runs (.while c t)) := by
  have hdraw := Draft.Grows.draw d (.list "while")
  have hd₀ := (hd.grow hdraw rfl).pushFrame
  obtain ⟨condition, setup, d₁, hrun, htests⟩ := he.generateCondition hsafe hd₀ hV
  obtain ⟨guard, d₂, hlower⟩ : ∃ guard d₂, (condition.lower (Line.call
      (d.options.list "while" (d.count (.list "while"))))).run d₁.popFrame = (guard, d₂) :=
    ⟨_, _, rfl⟩
  have hs₂ : d₂.scopes = d.scopes :=
    (Condition.scopes_of_lower hlower).trans htests.adds.scopes_eq
  have hg₂ := htests.adds.toGrows.popFrame.2.trans (Condition.grows_of_lower hlower)
  obtain ⟨lines, d₃, hrun₃, hg₃, hs₃, hreal⟩ :=
    Generates.branch (hd.grow (hdraw.trans hg₂) hs₂) (hV.of_scopes hs₂) h
  obtain ⟨hg, hloop⟩ := Realizes.loop hd htests hlower hreal hg₃ hs₃
  refine ⟨setup ++ guard, _, ?_, (hg.trans (.write _ setup)).trans (.write _ guard),
    hV.of_scopes (hs₃.trans hs₂), ((hloop.write setup).write guard).mono fun σ τ => runs_of_repeat⟩
  have hcapture : (capture e.generateCondition.run).run (d.draw (.list "while")) =
      ((some condition, setup), d₁.popFrame) := by
    rw [run_capture _ _ (by rw [hrun]; exact htests.adds.toGrows), hrun]
  rw [Stmt.generate]
  exact run_generateLoop hcapture hlower hrun₃

mutual

/-- **Statements of the core** become lines that do what the interpreter does. -/
theorem StmtTree.generates : ∀ {V V' : Set String} {s : Stmt} {t : Statement},
    StmtTree V s t V' → t.safe = true → ∀ d : Draft, d.Neat → d.Binds V →
      Generates s.generate d V' (Runs t)
  | _, _, _, _, .declare hname he ho, hsafe, _, hd, hV => he.declares hsafe hd hV hname ho _
  | _, _, _, _, .assign hx he ho, hsafe, _, hd, hV => he.assigns hsafe hd hV hx ho _ _
  | _, _, _, _, .update hx he ho, hsafe, _, hd, hV => he.updates hsafe hd hV hx ho _ _
  | _, _, _, _, .block h, hsafe, d, hd, hV => by
    have hbody := StmtTrees.generates h hsafe d.pushScope hd.pushScope hV
    rw [Stmt.generate]
    refine (Generates.inScope hd hV hbody).mono ?_
    rintro σ τ ⟨τ', hruns, rfl⟩
    exact runs_block hruns
  | _, _, _, _, .ifThen he ht, hsafe, _, hd, hV => by
    obtain ⟨hc, hs⟩ := Bool.and_eq_true_iff.mp hsafe
    exact he.guards hc hd hV (StmtTree.generates ht hs) _
  | _, _, _, _, .ifElse he ht ht', hsafe, _, hd, hV => by
    obtain ⟨hboth, hs'⟩ := Bool.and_eq_true_iff.mp hsafe
    obtain ⟨hc, hs⟩ := Bool.and_eq_true_iff.mp hboth
    exact he.alternates hc hd hV (StmtTree.generates ht hs) (StmtTree.generates ht' hs') _
  | _, _, _, _, .while he ht, hsafe, _, hd, hV => by
    obtain ⟨hc, hs⟩ := Bool.and_eq_true_iff.mp hsafe
    exact he.loops hc hd hV (StmtTree.generates ht hs) _
  | _, _, _, _, @StmtTree.say V span i text h, _, d, hd, hV => by
    refine ⟨_, _, ?_, .write d _, hV, (Realizes.say hd h).mono ?_⟩
    · rw [Stmt.generate]
      exact run_emit _ d
    · rintro σ τ rfl
      exact runs_say text σ

/-- Several statements of the core. -/
theorem StmtTrees.generates : ∀ {V V' : Set String} {ss : List Stmt} {ts : List Statement},
    StmtTrees V ss ts V' → safeAll ts = true → ∀ d : Draft, d.Neat → d.Binds V →
      Generates (generateAll ss) d V' (RunsAll ts)
  | _, _, _, _, .nil V, _, d, hd, hV => by
    refine ⟨[], d, rfl, .refl d, hV, (Realizes.nil hd).mono ?_⟩
    rintro σ τ rfl
    exact runsAll_nil σ
  | _, _, _, _, .cons h h', hsafe, d, hd, hV => by
    obtain ⟨hs, hs'⟩ := Bool.and_eq_true_iff.mp hsafe
    rw [generateAll]
    refine ((StmtTree.generates h hs d hd hV).andThen (StmtTrees.generates h' hs')).mono ?_
    rintro σ τ ⟨σ₁, hruns, hruns'⟩
    exact runsAll_cons hruns hruns'

end

end Core

end Packwright
