import Packwright.Proofs.Generation
import Packwright.Proofs.OneLine.Texts

/-!
# Generation stays on its lines

Lines are put together from the texts of values, names and ids.  A text with a line feed is quoted
wherever it stands in the text of a value, so expressions bring none in.

* `Draft.OneLine`: no line in the draft has a line feed, and no value in scope would bring one in.
* `Gen.KeepsLines`: computations that lead from such drafts to such drafts.
* `Condition.keepsLines_lower`, `Expr.keepsSome_generate`: conditions and expressions.
-/

namespace Packwright

open Text

/-! ## Drafts -/

/-- The options that come up in lines have no line feed. -/
structure Options.OneLine (o : Options) : Prop where
  space : Text.OneLine o.space
  objective : Text.OneLine o.objective
  generatedDir : Text.OneLine o.generatedDir

/-- No line of the pack has a line feed. -/
def Pack.OneLine (p : Pack) : Prop := ∀ f ∈ p.functions, ∀ line ∈ f.2, Text.OneLine line

/-- No line in the draft has a line feed, and no value in scope would bring one in. -/
structure Draft.OneLine (d : Draft) : Prop where
  options : d.options.OneLine
  pack : d.pack.OneLine
  frames : ∀ frame ∈ d.frames, ∀ line ∈ frame.toList, Text.OneLine line
  scopes : ∀ scope ∈ d.scopes, ∀ entry ∈ scope, Text.OneLine entry.2.render

theorem Pack.OneLine.addFunction {p : Pack} (h : p.OneLine) (id : ResourceId)
    {lines : List String} (hlines : ∀ line ∈ lines, Text.OneLine line) :
    (p.addFunction id lines).OneLine := by
  intro f hf
  rcases Table.mem_of_mem_put hf with hf | hf
  · exact h f hf
  · exact hf ▸ hlines

namespace Draft.OneLine

variable {d : Draft}

theorem empty {options : Options} (h : options.OneLine) : (Draft.empty options).OneLine := by
  refine ⟨h, fun _ hf => (nomatch hf), ?_, ?_⟩
  · exact List.forall_mem_singleton.mpr fun _ hline => nomatch hline
  · exact List.forall_mem_singleton.mpr fun _ hentry => nomatch hentry

theorem draw (h : d.OneLine) (series : Series) : (d.draw series).OneLine :=
  ⟨h.options, h.pack, h.frames, h.scopes⟩

theorem pushFrame (h : d.OneLine) : d.pushFrame.OneLine :=
  ⟨h.options, h.pack,
    List.forall_mem_cons.mpr ⟨fun _ hline => (nomatch hline), h.frames⟩, h.scopes⟩

theorem popFrame (h : d.OneLine) : d.popFrame.OneLine :=
  ⟨h.options, h.pack, fun frame hframe => h.frames frame (List.mem_of_mem_drop hframe), h.scopes⟩

theorem pushScope (h : d.OneLine) : d.pushScope.OneLine :=
  ⟨h.options, h.pack, h.frames,
    List.forall_mem_cons.mpr ⟨fun _ hentry => (nomatch hentry), h.scopes⟩⟩

theorem popScope (h : d.OneLine) : d.popScope.OneLine :=
  ⟨h.options, h.pack, h.frames, fun scope hscope => h.scopes scope (List.mem_of_mem_drop hscope)⟩

theorem addFunction (h : d.OneLine) (id : ResourceId) {lines : List String}
    (hlines : ∀ line ∈ lines, Text.OneLine line) :
    ({ d with pack := d.pack.addFunction id lines } : Draft).OneLine :=
  ⟨h.options, h.pack.addFunction id hlines, h.frames, h.scopes⟩

theorem emit (h : d.OneLine) {line : String} (hline : Text.OneLine line) :
    (d.emit line).OneLine := by
  unfold Draft.emit
  split
  · rename_i frame outer hframes
    have hall := h.frames
    rw [hframes] at hall
    obtain ⟨hframe, houter⟩ := List.forall_mem_cons.mp hall
    refine ⟨h.options, h.pack, List.forall_mem_cons.mpr ⟨?_, houter⟩, h.scopes⟩
    rw [Array.toList_push]
    exact List.forall_mem_append.mpr ⟨hframe, List.forall_mem_singleton.mpr hline⟩
  · exact h

theorem bind (h : d.OneLine) (x : String) {v : Value} (hv : Text.OneLine v.render) :
    (d.bind x v).OneLine := by
  unfold Draft.bind
  split
  · rename_i scope outer hscopes
    have hall := h.scopes
    rw [hscopes] at hall
    obtain ⟨hscope, houter⟩ := List.forall_mem_cons.mp hall
    refine ⟨h.options, h.pack, h.frames, List.forall_mem_cons.mpr ⟨fun entry hentry => ?_, houter⟩⟩
    rcases Table.mem_of_mem_put hentry with hentry | hentry
    · exact hscope entry hentry
    · exact hentry ▸ hv
  · exact h

theorem lookup? (h : d.OneLine) {x : String} {v : Value} (hv : d.lookup? x = some v) :
    Text.OneLine v.render := by
  obtain ⟨scope, hscope, hget⟩ := List.exists_of_findSome?_eq_some hv
  exact h.scopes scope hscope (x, v) (Table.mem_of_get? hget)

end Draft.OneLine

/-! ## Computations -/

namespace Gen

variable {α β : Type} {Q : α → Prop} {R : β → Prop}

/-- From a draft without line feeds the computation comes to one, with a result that satisfies
`Q`. -/
def KeepsLines (m : Gen α) (Q : α → Prop) : Prop :=
  ∀ d : Draft, d.OneLine → (m.run d).2.OneLine ∧ Q (m.run d).1

/-- The same for a computation that may have no result. -/
abbrev KeepsSome (m : OptionT Gen α) (Q : α → Prop) : Prop := KeepsLines m.run fun o => ∀ a ∈ o, Q a

/-- What is written in a list of its own is on its lines. -/
theorem oneLine_captured {m : Gen α} {d : Draft}
    (h : (m.run d.pushFrame).2.OneLine) :
    ((Gen.capture m).run d).2.OneLine ∧ ∀ line ∈ ((Gen.capture m).run d).1.2, OneLine line := by
  refine ⟨h.popFrame, fun line hline => ?_⟩
  change line ∈ ((m.run d.pushFrame).2.frames.head?.map Array.toList).getD [] at hline
  cases hframes : (m.run d.pushFrame).2.frames with
  | nil => simp [hframes] at hline
  | cons frame outer =>
    rw [hframes] at hline
    exact h.frames frame (hframes ▸ List.mem_cons_self) line hline

/-- What is written in a list and a scope of its own is on its lines. -/
theorem oneLine_scoped {m : Gen α} {d : Draft} (h : (m.run d.pushFrame.pushScope).2.OneLine) :
    ((Gen.capture (Gen.inScope m)).run d).2.OneLine ∧
      ∀ line ∈ ((Gen.capture (Gen.inScope m)).run d).1.2, OneLine line :=
  oneLine_captured (m := Gen.inScope m) h.popScope

namespace KeepsLines

theorem pure {a : α} (h : Q a) : KeepsLines (Pure.pure a : Gen α) Q := fun _ hd => ⟨hd, h⟩

theorem bind {m : Gen α} {f : α → Gen β} (hm : KeepsLines m Q)
    (hf : ∀ a, Q a → KeepsLines (f a) R) : KeepsLines (m >>= f) R := by
  intro d hd
  obtain ⟨hd₁, ha⟩ := hm d hd
  exact hf _ ha _ hd₁

/-- A run from a draft without line feeds, with its result and the draft behind it. -/
theorem exists_run {m : Gen α} (hm : KeepsLines m Q) {d : Draft} (hd : d.OneLine) :
    ∃ a d₁, m.run d = (a, d₁) ∧ d₁.OneLine ∧ Q a := ⟨_, _, rfl, hm d hd⟩

theorem discard {m : Gen α} (hm : KeepsLines m Q) :
    KeepsLines (Functor.discard m) fun _ => True :=
  hm.bind fun _ _ => pure trivial

theorem temp {purpose : String} (h : OneLine purpose) :
    KeepsLines (Gen.temp purpose) fun s => OneLine s.text := by
  intro d hd
  refine ⟨hd.draw _, Score.oneLine_text.mpr ⟨?_, hd.options.objective⟩⟩
  have hsharp : OneLine "#" := by decide
  show OneLine ("#" ++ purpose ++ toString _)
  simp [hsharp, h]

theorem reserve {purpose : String} (h : OneLine purpose) :
    KeepsLines (Gen.reserve purpose) fun id => OneLine id.text := by
  intro d hd
  refine ⟨hd.draw _, ResourceId.oneLine_text.mpr ⟨hd.options.space, ?_⟩⟩
  have hslash : OneLine "/" := by decide
  have hunderscore : OneLine "_" := by decide
  show OneLine (d.options.generatedDir ++ "/" ++ purpose ++ "_" ++ toString _)
  simp [hd.options.generatedDir, hslash, hunderscore, h]

theorem addFunction (id : ResourceId) {lines : List String}
    (h : ∀ line ∈ lines, OneLine line) : KeepsLines (Gen.addFunction id lines) fun _ => True :=
  fun _ hd => ⟨hd.addFunction id h, trivial⟩

theorem synthesize {purpose : String} (hp : OneLine purpose) {lines : List String}
    (h : ∀ line ∈ lines, OneLine line) :
    KeepsLines (Gen.synthesize purpose lines) fun id => OneLine id.text :=
  (reserve hp).bind fun _ hid => (addFunction _ h).bind fun _ _ => pure hid

theorem emit {line : String} (h : OneLine line) : KeepsLines (Gen.emit line) fun _ => True :=
  fun _ hd => ⟨hd.emit h, trivial⟩

theorem emitAll : ∀ {lines : List String}, (∀ line ∈ lines, OneLine line) →
    KeepsLines (Gen.emitAll lines) fun _ => True
  | [], _ => pure trivial
  | _ :: _, h => (emit (List.forall_mem_cons.mp h).1).bind fun _ _ =>
      emitAll (List.forall_mem_cons.mp h).2

theorem get : KeepsLines (MonadState.get : Gen Draft) Draft.OneLine := fun _ hd => ⟨hd, hd⟩

theorem complain (issue : Issue) (span : Span) :
    KeepsLines (Gen.complain issue span) fun _ => True :=
  fun _ hd => ⟨⟨hd.options, hd.pack, hd.frames, hd.scopes⟩, trivial⟩

theorem declare (x : String) {v : Value} (h : OneLine v.render) :
    KeepsLines (Gen.bind x v) fun _ => True :=
  fun _ hd => ⟨hd.bind x h, trivial⟩

theorem newVariable {x : String} (h : OneLine x) :
    KeepsLines (Gen.newVariable x) fun s => OneLine s.text := by
  have hentry : ∀ n, OneLine (Draft.variableEntry x n) := by
    intro n
    cases n <;> simp +decide [Draft.variableEntry, h]
  intro d hd
  rw [run_newVariable]
  split
  · exact ⟨⟨hd.options, hd.pack, hd.frames, hd.scopes⟩,
      Score.oneLine_text.mpr ⟨hentry 0, hd.options.objective⟩⟩
  · exact ⟨⟨hd.options, hd.pack, hd.frames, hd.scopes⟩,
      Score.oneLine_text.mpr ⟨hentry _, hd.options.objective⟩⟩

theorem capture {m : Gen α} (h : KeepsLines m Q) :
    KeepsLines (Gen.capture m) fun r => Q r.1 ∧ ∀ line ∈ r.2, OneLine line := by
  intro d hd
  obtain ⟨hd₁, ha⟩ := h d.pushFrame hd.pushFrame
  obtain ⟨hd₂, hlines⟩ := oneLine_captured hd₁
  exact ⟨hd₂, ha, hlines⟩

theorem asCommand {purpose : String} (hp : OneLine purpose) {lines : List String}
    (h : ∀ line ∈ lines, OneLine line) : KeepsLines (Gen.asCommand purpose lines) OneLine := by
  unfold Gen.asCommand
  split
  · exact pure (List.forall_mem_singleton.mp h)
  · exact (synthesize hp h).bind fun _ hid => pure (Line.oneLine_call.mpr hid)

end KeepsLines

namespace KeepsSome

theorem some {a : α} (h : Q a) : KeepsSome (Pure.pure a : OptionT Gen α) Q :=
  KeepsLines.pure fun _ hb => Option.mem_some_iff.mp hb ▸ h

theorem none : KeepsSome (failure : OptionT Gen α) Q := KeepsLines.pure fun _ ha => nomatch ha

theorem ofOption {o : Option α} (h : ∀ a ∈ o, Q a) :
    KeepsSome (OptionT.mk (Pure.pure o) : OptionT Gen α) Q := KeepsLines.pure h

theorem lift {m : Gen α} (h : KeepsLines m Q) : KeepsSome (liftM m : OptionT Gen α) Q :=
  KeepsLines.bind h fun _ ha => KeepsLines.pure fun _ hb => Option.mem_some_iff.mp hb ▸ ha

theorem bind {m : OptionT Gen α} {f : α → OptionT Gen β} (hm : KeepsSome m Q)
    (hf : ∀ a, Q a → KeepsSome (f a) R) : KeepsSome (m >>= f) R := by
  unfold KeepsSome
  rw [OptionT.run_bind]
  refine KeepsLines.bind hm fun o ho => ?_
  cases o with
  | none => exact KeepsLines.pure fun _ ha => nomatch ha
  | some a => exact hf a (ho a rfl)

theorem emit {line : String} (h : OneLine line) :
    KeepsSome (liftM (Gen.emit line) : OptionT Gen Unit) fun _ => True :=
  lift (KeepsLines.emit h)

theorem temp {purpose : String} (h : OneLine purpose) :
    KeepsSome (liftM (Gen.temp purpose) : OptionT Gen Score) fun s => OneLine s.text :=
  lift (KeepsLines.temp h)

end KeepsSome

end Gen

open Gen

/-! ## Conditions -/

namespace Condition

mutual

/-- **Conditions** are lowered to lines, if the command they guard is one. -/
theorem keepsLines_lower : ∀ (c : Condition) {run : String}, OneLine c.text → OneLine run →
    KeepsLines (c.lower run) fun lines => ∀ line ∈ lines, OneLine line
  | .leaf negated (.constant value), run, _, hrun => by
    unfold lower
    split
    · exact .pure fun _ hline => nomatch hline
    · exact .pure (List.forall_mem_singleton.mpr hrun)
  | .leaf negated (.within s r), run, hc, hrun
  | .leaf negated (.compare s c t), run, hc, hrun
  | .leaf negated (.entity s), run, hc, hrun
  | .leaf negated (.data path), run, hc, hrun =>
    .pure (List.forall_mem_singleton.mpr
      (Line.oneLine_guard.mpr ⟨oneLine_text_leaf.mp hc, hrun⟩))
  | .all negated children, run, hc, hrun =>
    keepsLines_lowerAll negated children (oneLine_text_all.mp hc) hrun
  | .any negated children, run, hc, hrun => by
    unfold lower
    split
    · split
      · exact .pure (List.forall_mem_singleton.mpr hrun)
      · exact .pure fun _ hline => nomatch hline
    · refine (KeepsLines.temp (by decide)).bind fun flag hflag => ?_
      refine (keepsLines_lowerEach children (oneLine_text_any.mp hc)
        (Line.oneLine_set.mpr hflag)).bind fun tests htests => .pure ?_
      simp only [List.cons_append, List.forall_mem_cons, List.forall_mem_append]
      exact ⟨Line.oneLine_set.mpr hflag, htests, Line.oneLine_guardAmount.mpr ⟨hflag, hrun⟩,
        fun _ hline => nomatch hline⟩

theorem keepsLines_lowerEach : ∀ (cs : List Condition) {run : String},
    (∀ c ∈ cs, OneLine c.text) → OneLine run →
    KeepsLines (lowerEach cs run) fun lines => ∀ line ∈ lines, OneLine line
  | [], _, _, _ => .pure fun _ hline => nomatch hline
  | c :: cs, _, hcs, hrun =>
    (keepsLines_lower c (List.forall_mem_cons.mp hcs).1 hrun).bind fun _ hfirst =>
      (keepsLines_lowerEach cs (List.forall_mem_cons.mp hcs).2 hrun).bind fun _ hrest =>
        .pure (List.forall_mem_append.mpr ⟨hfirst, hrest⟩)

theorem keepsLines_lowerAll (negated : Bool) : ∀ (cs : List Condition) {run : String},
    (∀ c ∈ cs, OneLine c.text) → OneLine run →
    KeepsLines (lowerAll negated cs run) fun lines => ∀ line ∈ lines, OneLine line
  | [], run, _, hrun => by
    unfold lowerAll
    split
    · exact .pure fun _ hline => nomatch hline
    · exact .pure (List.forall_mem_singleton.mpr hrun)
  | c :: cs, run, hcs, hrun => by
    obtain ⟨hc, hcs⟩ := List.forall_mem_cons.mp hcs
    unfold lowerAll
    refine (KeepsLines.temp (by decide)).bind fun flag hflag => ?_
    have hset : ∀ n, OneLine (Line.set flag n) := fun _ => Line.oneLine_set.mpr hflag
    have hguard : ∀ {n : Amount} {line : String}, OneLine line →
        OneLine (Line.guardAmount false flag n line) :=
      fun hline => Line.oneLine_guardAmount.mpr ⟨hflag, hline⟩
    refine (keepsLines_lower c hc (hset 1)).bind fun first hfirst => ?_
    have htested : ∀ line ∈ Line.set flag 0 :: first, OneLine line :=
      List.forall_mem_cons.mpr ⟨hset 0, hfirst⟩
    dsimp only
    split
    · exact .pure (List.forall_mem_append.mpr
        ⟨htested, List.forall_mem_singleton.mpr (hguard hrun)⟩)
    · refine (keepsLines_lowerAll negated cs hcs hrun).bind fun rest hrest => ?_
      have hfailed : ∀ line ∈ (if negated then [Line.guardAmount false flag 0 run] else []),
          OneLine line := by
        split
        · exact List.forall_mem_singleton.mpr (hguard hrun)
        · exact fun _ hline => nomatch hline
      split
      · exact .pure (List.forall_mem_append.mpr ⟨htested, hfailed⟩)
      · refine (KeepsLines.synthesize (by decide) hrest).bind fun id hid => .pure ?_
        simp only [List.forall_mem_append]
        exact ⟨⟨htested, hfailed⟩,
          List.forall_mem_singleton.mpr (hguard (Line.oneLine_call.mpr hid))⟩

end

end Condition

/-! ## Values and operations -/

namespace Score

variable {s t : Score} {v : Value}

theorem keepsSome_modify (hs : OneLine s.text) (op : Arith) (hv : OneLine v.render) :
    KeepsSome (s.modify op v) fun _ => True := by
  have hsign : OneLine op.sign := by cases op <;> decide
  have hoperation : ∀ {t : Score}, OneLine t.text → OneLine (Line.operation s op.sign t) :=
    fun ht => Line.oneLine_operation.mpr ⟨hs, hsign, ht⟩
  unfold modify
  split
  · split
    · split
      · exact .emit (Line.oneLine_add.mpr hs)
      · exact .emit (Line.oneLine_remove.mpr hs)
    · refine (KeepsSome.temp (by decide)).bind fun constant hconstant => ?_
      exact (KeepsSome.emit (Line.oneLine_set.mpr hconstant)).bind fun _ _ =>
        .emit (hoperation hconstant)
  · exact .emit (hoperation (Value.oneLine_render_score.mp hv))
  · exact .none

theorem keepsSome_compute (op : Arith) (hs : OneLine s.text) (hv : OneLine v.render) :
    KeepsSome (compute op s v) fun w => OneLine w.render := by
  refine (KeepsSome.temp (by decide)).bind fun result hresult => ?_
  refine (KeepsSome.emit (Line.oneLine_operation.mpr ⟨hresult, by decide, hs⟩)).bind fun _ _ => ?_
  exact (keepsSome_modify hresult op hv).bind fun _ _ =>
    .some (Value.oneLine_render_score.mpr hresult)

theorem keepsLines_opposite (hs : OneLine s.text) :
    KeepsLines s.opposite fun w => OneLine w.render := by
  refine (KeepsLines.temp (by decide)).bind fun result hresult => ?_
  refine (KeepsLines.emit (Line.oneLine_set.mpr hresult)).bind fun _ _ => ?_
  refine (KeepsLines.emit (Line.oneLine_operation.mpr ⟨hresult, by decide, hs⟩)).bind fun _ _ => ?_
  exact .pure (Value.oneLine_render_score.mpr hresult)

theorem keepsLines_ofCondition {c : Condition} (hc : OneLine c.text) :
    KeepsLines (ofCondition c) fun s => OneLine s.text := by
  refine (KeepsLines.temp (by decide)).bind fun flag hflag => ?_
  refine (KeepsLines.emit (Line.oneLine_set.mpr hflag)).bind fun _ _ => ?_
  refine (c.keepsLines_lower hc (Line.oneLine_set.mpr hflag)).bind fun lines hlines => ?_
  exact (KeepsLines.emitAll hlines).bind fun _ _ => .pure hflag

theorem keepsSome_store (hs : OneLine s.text) (hv : OneLine v.render) :
    KeepsSome (s.store v) fun _ => True := by
  unfold store
  split
  · exact .emit (Line.oneLine_set.mpr hs)
  · exact .emit (Line.oneLine_set.mpr hs)
  · split
    · exact .some trivial
    · exact .emit (Line.oneLine_operation.mpr ⟨hs, by decide, Value.oneLine_render_score.mp hv⟩)
  · refine (KeepsSome.lift (keepsLines_ofCondition
      (Value.oneLine_render_condition.mp hv))).bind fun flag hflag => ?_
    exact .emit (Line.oneLine_operation.mpr ⟨hs, by decide, hflag⟩)
  · exact .emit (Line.oneLine_fetch.mpr ⟨hs, Value.oneLine_render_data.mp hv⟩)
  · exact .none

theorem keepsSome_ofValue (hv : OneLine v.render) :
    KeepsSome (ofValue v) fun w => OneLine w.render := by
  have hstore : ∀ {v : Value}, OneLine v.render → KeepsSome (do
      let constant ← liftM (Gen.temp "const")
      constant.store v
      return .score constant : OptionT Gen Value) fun w => OneLine w.render := by
    intro v hv
    refine (KeepsSome.temp (by decide)).bind fun constant hconstant => ?_
    exact (keepsSome_store hconstant hv).bind fun _ _ =>
      .some (Value.oneLine_render_score.mpr hconstant)
  unfold ofValue
  split
  · refine (KeepsSome.lift (keepsLines_ofCondition
      (Value.oneLine_render_condition.mp hv))).bind fun flag hflag => ?_
    exact .some (Value.oneLine_render_score.mpr hflag)
  · exact hstore hv
  · exact hstore hv
  · exact hstore hv
  · exact .none

theorem oneLine_relateAmount (hs : OneLine s.text) (r : Relation) (n : Amount) :
    OneLine (s.relateAmount r n).text := by
  have hwithin : ∀ (negated : Bool) (range : Range),
      OneLine (Condition.leaf negated (.within s range)).text := by
    intro negated range
    simpa using hs
  unfold relateAmount
  cases r with
  | gt | lt =>
    dsimp only
    split
    · exact Condition.oneLine_text_constant false
    · exact hwithin _ _
  | ge | le | eq | ne => exact hwithin _ _

theorem oneLine_relateScore (hs : OneLine s.text) (r : Relation) (ht : OneLine t.text) :
    OneLine (s.relateScore r t).text := by
  have hcompare : ∀ (negated : Bool) (c : Comparison),
      OneLine (Condition.leaf negated (.compare s c t)).text := by
    intro negated c
    simpa using And.intro (Score.oneLine_text.mp hs) (Score.oneLine_text.mp ht)
  unfold relateScore
  cases r <;> exact hcompare _ _

theorem oneLine_relate? {r : Relation} {w : Value} (hv : OneLine v.render) (hw : OneLine w.render)
    {c : Condition} (h : relate? r v w = some c) : OneLine c.text := by
  unfold relate? at h
  split at h
  · cases h
    exact oneLine_relateAmount hv r _
  · cases h
    exact oneLine_relateScore hv r hw
  · cases h

end Score

namespace Value

variable {v w : Value}

/-- Folding gives numbers. -/
theorem oneLine_arith {op : Arith} {l r : Value} (h : l.arith op r = some v) :
    OneLine v.render := by
  unfold arith at h
  split at h
  case h_7 => cases h
  case h_5 | h_6 =>
    cases h
    simp
  all_goals
    obtain ⟨n, -, rfl⟩ := Option.map_eq_some_iff.mp h
    simp

theorem oneLine_negate? (h : w.negate? = some v) : OneLine v.render := by
  unfold negate? at h
  split at h <;> cases h <;> simp

theorem oneLine_condition? (hw : OneLine w.render) {c : Condition} (h : w.condition? = some c) :
    OneLine c.text := by
  unfold condition? at h
  split at h
  · cases h
    exact hw
  · cases h
    exact Condition.oneLine_text_constant _
  · cases h

theorem oneLine_toInt? (h : w.toInt? = some v) : OneLine v.render := by
  unfold toInt? at h
  split at h <;> cases h <;> simp

theorem oneLine_toLong? (h : w.toLong? = some v) : OneLine v.render := by
  unfold toLong? at h
  split at h <;> cases h <;> simp

theorem oneLine_toSingle? (h : w.toSingle? = some v) : OneLine v.render := by
  unfold toSingle? at h
  split at h <;> cases h <;> simp

theorem oneLine_toDouble? (h : w.toDouble? = some v) : OneLine v.render := by
  unfold toDouble? at h
  split at h <;> cases h <;> simp

theorem oneLine_toCondition? (hw : OneLine w.render) (h : w.toCondition? = some v) :
    OneLine v.render := by
  unfold toCondition? at h
  split at h <;> cases h
  · simp
  · simpa using hw
  · simpa using hw
  · simpa using hw

end Value

/-- **Binary operations** lead from lines to lines. -/
theorem BinaryRule.keepsSome_apply (rule : BinaryRule) {l r : Value} (hl : OneLine l.render)
    (hr : OneLine r.render) : KeepsSome (rule.apply l r) fun v => OneLine v.render := by
  have hrelate : ∀ {relation : Relation} {v w : Value}, OneLine v.render → OneLine w.render →
      KeepsSome (OptionT.mk (return (Score.relate? relation v w).map .condition) :
        OptionT Gen Value) fun v => OneLine v.render := by
    intro relation v w hv hw
    refine .ofOption fun u hu => ?_
    obtain ⟨c, hc, rfl⟩ := Option.map_eq_some_iff.mp hu
    exact Score.oneLine_relate? hv hw hc
  unfold apply
  split
  case h_1 => exact .ofOption fun v hv => Value.oneLine_arith hv
  case h_2 =>
    refine .ofOption fun v hv => ?_
    obtain ⟨b, -, rfl⟩ := Option.map_eq_some_iff.mp hv
    simp
  case h_3 | h_4 | h_5 | h_6 => exact .some (by simp)
  case h_7 =>
    split
    · rename_i a b ha hb
      exact .some (Condition.oneLine_and (l.oneLine_condition? hl ha) (r.oneLine_condition? hr hb))
    · exact .none
  case h_8 =>
    split
    · rename_i a b ha hb
      exact .some (Condition.oneLine_or (l.oneLine_condition? hl ha) (r.oneLine_condition? hr hb))
    · exact .none
  case h_9 => exact hrelate hl hr
  case h_10 => exact hrelate hr hl
  case h_11 => exact .some (by simpa using hl)
  case h_12 => exact Score.keepsSome_compute _ hl hr
  case h_13 => exact Score.keepsSome_compute _ hr hl
  case h_14 => exact (Score.keepsSome_store hl hr).bind fun _ _ => .none
  case h_15 => exact (Score.keepsSome_modify hl _ hr).bind fun _ _ => .none
  case h_16 => exact .none

theorem UnaryRule.keepsSome_apply (rule : UnaryRule) {v : Value} (hv : OneLine v.render) :
    KeepsSome (rule.apply v) fun w => OneLine w.render := by
  unfold apply
  split
  · exact .ofOption fun w hw => Value.oneLine_negate? hw
  · exact .some (by simp)
  · exact .some (by simpa using hv)
  · exact .lift (Score.keepsLines_opposite hv)
  · exact .none

theorem Cast.keepsSome_apply (c : Cast) {v : Value} (hv : OneLine v.render) :
    KeepsSome (c.apply v) fun w => OneLine w.render := by
  unfold apply
  split
  · exact .ofOption fun w hw => Value.oneLine_toInt? hw
  · exact .ofOption fun w hw => Value.oneLine_toLong? hw
  · exact .ofOption fun w hw => Value.oneLine_toSingle? hw
  · exact .ofOption fun w hw => Value.oneLine_toDouble? hw
  · exact .some (by simp)
  · exact .some (by simp)
  · exact .some (Value.oneLine_render_item.mpr ⟨hv, fun _ hes => nomatch hes⟩)
  · exact .ofOption fun w hw => Value.oneLine_toCondition? hv hw
  · exact Score.keepsSome_ofValue hv
  · exact .none

theorem MemberRule.keepsSome_apply (rule : MemberRule) {v : Value} (hv : OneLine v.render)
    {name : String} (hname : OneLine name) :
    KeepsSome (rule.apply v name) fun w => OneLine w.render := by
  have hint : ∀ {o : Option Amount}, KeepsSome (OptionT.mk (return o.map .int) : OptionT Gen Value)
      fun w => OneLine w.render := by
    intro o
    refine .ofOption fun w hw => ?_
    obtain ⟨n, -, rfl⟩ := Option.map_eq_some_iff.mp hw
    simp
  unfold apply
  split
  · exact .some (Score.oneLine_text.mpr ⟨hv, hname⟩)
  · exact (KeepsSome.emit (Line.oneLine_reset.mpr hv)).bind fun _ _ => .none
  · exact hint
  · exact hint
  · exact hint
  · exact .some (by simp)
  · exact .none

/-! ## Expressions -/

namespace Expr

/-- What a node brings into lines has no line feed. -/
def OneLineNode : Expr → Prop
  | literal _ v => Text.OneLine v.render
  | member _ _ x _ _ => Text.OneLine x
  | dataPath _ _ path => Text.OneLine path
  | variant _ _ x => Text.OneLine (Text.lower x)
  | call _ (.here x) => Text.OneLine x
  | call _ (.elsewhere id) => Text.OneLine id.text
  | name _ _ | binary _ _ _ _ _ | unary _ _ _ _ | cast _ _ _ | range _ _ _ | list _ _
  | compound _ _ | error _ => True

/-- What the nodes of the expression bring into lines has no line feed. -/
def OneLine (e : Expr) : Prop := ∀ p : Expr, p.Part e → p.OneLineNode

theorem OneLine.node {e : Expr} (h : e.OneLine) : e.OneLineNode := h e .self

theorem OneLine.child {e c : Expr} (h : e.OneLine) (hc : c ∈ e.children) : c.OneLine :=
  fun p hp => h p (.child hc hp)

mutual

/-- **Expressions** write lines, and have values that bring no line feed in. -/
theorem keepsSome_generate : ∀ e : Expr, e.OneLine →
    KeepsSome e.generate fun v => Text.OneLine v.render
  | .literal _ v, h => .some h.node
  | .name _ x, _ => by
    refine (KeepsSome.lift KeepsLines.get).bind fun d hd => ?_
    exact .ofOption fun v hv => hd.lookup? hv
  | .binary _ _ l r none, _ => .none
  | .binary _ _ l r (some o), h =>
    (keepsSome_generate l (h.child (by simp [children]))).bind fun _ hleft =>
      (keepsSome_generate r (h.child (by simp [children]))).bind fun _ hright =>
        o.rule.keepsSome_apply hleft hright
  | .unary _ _ e none, _ => .none
  | .unary _ _ e (some o), h =>
    (keepsSome_generate e (h.child (by simp [children]))).bind fun _ hv =>
      o.rule.keepsSome_apply hv
  | .cast _ e c, h =>
    (keepsSome_generate e (h.child (by simp [children]))).bind fun _ hv => c.keepsSome_apply hv
  | .range _ l r, h =>
    (keepsSome_generateBound l fun e he => h.child (by simp_all [children])).bind fun _ _ =>
      (keepsSome_generateBound r fun e he => h.child (by simp_all [children])).bind fun _ _ =>
        .some (by simp)
  | .list _ es, h =>
    (keepsSome_generateAll es fun e he => h.child he).bind fun _ hvs => .some (by simpa using hvs)
  | .compound _ es, h =>
    (keepsSome_generateEntries es fun e he => h.child (List.mem_map_of_mem he)).bind
      fun vs hvs => .some (by
        refine Value.oneLine_render_compound.mpr fun entry hentry => ?_
        obtain ⟨q, hq, hqv⟩ := (Table.ofPairs_spec vs).2 entry hentry
        exact hqv ▸ hvs q hq)
  | .member _ e x m as, h =>
    (keepsSome_generate e (h.child (by simp [children]))).bind fun _ hv =>
      (keepsSome_generateAll as fun a ha => h.child (List.mem_cons_of_mem _ ha)).bind fun _ _ =>
        m.rule.keepsSome_apply hv h.node
  | .dataPath _ e path, h =>
    (keepsSome_generate e (h.child (by simp [children]))).bind fun v hv => by
      split
      · exact .some (DataPath.oneLine_text.mpr ⟨hv, h.node⟩)
      · exact .none
  | .variant _ _ _, h => .some h.node
  | .call _ (.here x), h => by
    refine (KeepsSome.lift KeepsLines.get).bind fun d hd => ?_
    refine (KeepsSome.emit (Line.oneLine_call.mpr ?_)).bind fun _ _ => .none
    exact ResourceId.oneLine_text.mpr ⟨hd.options.space, h.node⟩
  | .call _ (.elsewhere id), h => by
    refine (KeepsSome.lift KeepsLines.get).bind fun d hd => ?_
    exact (KeepsSome.emit (Line.oneLine_call.mpr h.node)).bind fun _ _ => .none
  | .error _, _ => .none

theorem keepsSome_generateAll : ∀ es : List Expr, (∀ e ∈ es, e.OneLine) →
    KeepsSome (generateAll es) fun vs => ∀ v ∈ vs, Text.OneLine v.render
  | [], _ => .some fun _ hv => nomatch hv
  | e :: es, h =>
    (keepsSome_generate e (List.forall_mem_cons.mp h).1).bind fun _ hv =>
      (keepsSome_generateAll es (List.forall_mem_cons.mp h).2).bind fun _ hvs =>
        .some (List.forall_mem_cons.mpr ⟨hv, hvs⟩)

theorem keepsSome_generateEntries : ∀ es : List (String × Expr), (∀ e ∈ es, e.2.OneLine) →
    KeepsSome (generateEntries es) fun vs => ∀ v ∈ vs, Text.OneLine v.2.render
  | [], _ => .some fun _ hv => nomatch hv
  | (_, e) :: es, h =>
    (keepsSome_generate e (List.forall_mem_cons.mp h).1).bind fun _ hv =>
      (keepsSome_generateEntries es (List.forall_mem_cons.mp h).2).bind fun _ hvs =>
        .some (List.forall_mem_cons.mpr ⟨hv, hvs⟩)

theorem keepsSome_generateBound : ∀ e : Option Expr, (∀ c ∈ e, c.OneLine) →
    KeepsSome (generateBound e) fun _ => True
  | none, _ => .some trivial
  | some e, h => (keepsSome_generate e (h e rfl)).bind fun v _ => by
      split
      · exact .some trivial
      · exact .none

end

theorem keepsSome_generateCondition {e : Expr} (h : e.OneLine) :
    KeepsSome e.generateCondition fun c => Text.OneLine c.text := by
  refine (keepsSome_generate e h).bind fun v hv => ?_
  split
  · exact .some hv
  · exact .some (Condition.oneLine_text_constant _)
  · split
    · exact .none
    · rename_i c _
      refine (c.keepsSome_apply hv).bind fun w hw => ?_
      split
      · exact .some hw
      · exact .none

theorem keepsSome_generateSelector {e : Expr} (h : e.OneLine) :
    KeepsSome e.generateSelector fun s => Text.OneLine s.text := by
  refine (keepsSome_generate e h).bind fun v hv => ?_
  split
  · exact .some hv
  · exact .none

theorem keepsSome_generateConstant {e : Expr} (h : e.OneLine) (what : String) :
    KeepsSome (e.generateConstant what) fun v => Text.OneLine v.render := by
  refine (keepsSome_generate e h).bind fun v hv => ?_
  split
  · exact (KeepsSome.lift (.complain _ _)).bind fun _ _ => .none
  · exact .some hv

end Expr

end Packwright
