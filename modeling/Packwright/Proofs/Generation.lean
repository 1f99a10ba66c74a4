import Packwright.Proofs.Walk

/-!
# Generation makes drafts grow

`Gen.Grows m`: whatever the draft, the computation `m` makes it grow.  Growth goes through sequences
of computations, so each function of generation is a chain of the functions that it calls.  Only a
statement that declares a function puts a list under a name that was not drawn.

* `run_temp`, `run_reserve`, `run_capture`, `run_inScope`: what the basic computations do to a
  draft.
* `Gen.Grows.makes`: the walk through generation, for growth.
* `Condition.silent_lower`, `Expr.grows_generateCondition`, `grows_generateAll`: conditions, and
  statements that declare no function.
-/

namespace Packwright

/-- The draft with one more list that is being written. -/
def Draft.pushFrame (d : Draft) : Draft := { d with frames := #[] :: d.frames }

/-- The draft without the innermost list that is being written. -/
def Draft.popFrame (d : Draft) : Draft := { d with frames := d.frames.drop 1 }

/-- The draft with lines at the end of the innermost list. -/
def Draft.write (d : Draft) (lines : List String) : Draft :=
  { d with frames := Draft.addLines d.frames lines }

/-- The draft inside a new scope. -/
def Draft.pushScope (d : Draft) : Draft := { d with scopes := [] :: d.scopes }

/-- The draft behind its innermost scope. -/
def Draft.popScope (d : Draft) : Draft := { d with scopes := d.scopes.drop 1 }

/-- The draft with a list under a name. -/
def Draft.withFunction (d : Draft) (id : ResourceId) (lines : List String) : Draft :=
  { d with pack := d.pack.addFunction id lines }

/-- The draft with one more list for a purpose. -/
def Draft.withList (d : Draft) (purpose : String) (lines : List String) : Draft :=
  { d.draw (.list purpose) with
    pack := d.pack.addFunction (d.options.list purpose (d.count (.list purpose))) lines }

theorem Draft.Grows.write (d : Draft) (lines : List String) : d.Grows lines (d.write lines) :=
  ⟨rfl, rfl, rfl, fun _ => le_rfl, fun _ h => h, rfl, rfl, fun _ _ _ _ => rfl, fun _ _ => rfl, id⟩

theorem Draft.Grows.withList {purpose : String} (hp : Lettered purpose) (lines : List String)
    (d : Draft) : d.Grows [] (d.withList purpose lines) :=
  (Draft.Grows.draw d (.list purpose)).addFunction hp le_rfl (d.lt_count_draw _) lines

/-- What is written in a list of its own changes no other list. -/
theorem Draft.Grows.popFrame {d d₁ : Draft} {lines : List String}
    (h : d.pushFrame.Grows lines d₁) :
    d₁.frames = lines.toArray :: d.frames ∧ d.Grows [] d₁.popFrame := by
  have hframes : d₁.frames = lines.toArray :: d.frames := by
    rw [h.frames]
    simp [addLines, Draft.pushFrame]
  refine ⟨hframes, h.options, ?_, h.scopes, h.count, h.taken, h.space, h.tags, h.kept, h.others,
    h.keys⟩
  show d₁.frames.drop 1 = _
  rw [hframes, addLines_nil]
  rfl

/-- The lines of the innermost list behind those that it had before. -/
def Draft.written (d d' : Draft) : List String :=
  match d.frames.head?, d'.frames.head? with
  | some frame, some frame' => frame'.toList.drop frame.size
  | _, _ => []

theorem Draft.Grows.written_eq {d d₁ : Draft} {lines : List String} (h : d.Grows lines d₁)
    (hd : d.frames ≠ []) : d.written d₁ = lines := by
  cases hf : d.frames with
  | nil => exact absurd hf hd
  | cons frame outer =>
    have hf₁ := h.frames
    rw [hf] at hf₁
    unfold Draft.written
    rw [hf, hf₁]
    simp [addLines]

/-- What is bound in a scope of its own changes no other scope. -/
theorem Draft.Grows.popScope {d d₁ : Draft} {lines : List String}
    (h : d.pushScope.Grows lines d₁) :
    d₁.popScope.scopes = d.scopes ∧ d.Grows lines d₁.popScope := by
  have hscopes : d₁.popScope.scopes = d.scopes := h.scopes
  refine ⟨hscopes, h.options, h.frames, ?_, h.count, h.taken, h.space, h.tags, h.kept, h.others,
    h.keys⟩
  rw [hscopes]

theorem Draft.le_freeNumber (taken : List String) (name : String) :
    ∀ steps n, n ≤ Draft.freeNumber taken name steps n
  | 0, _ => le_rfl
  | steps + 1, n => by
    rw [Draft.freeNumber]
    split
    · exact (Nat.le_succ n).trans (Draft.le_freeNumber taken name steps (n + 1))
    · exact le_rfl

/-- Tags are no lists. -/
theorem Pack.functions_foldl_addTag (id : ResourceId) (tags : List Tag) (pack : Pack) :
    (tags.foldl (·.addTag · id) pack).functions = pack.functions := by
  induction tags generalizing pack with
  | nil => rfl
  | cons tag tags ih => exact ih (pack.addTag tag id)

namespace Gen

variable {α β : Type}

/-! ## What the basic computations do -/

theorem run_pure (a : α) (d : Draft) : (pure a : Gen α).run d = (a, d) := rfl

theorem run_bind (m : Gen α) (f : α → Gen β) (d : Draft) :
    (m >>= f).run d = (f (m.run d).1).run (m.run d).2 := rfl

/-- A computation with a result goes on with it. -/
theorem run_andThen {d d₁ : Draft} {m : OptionT Gen α} {f : α → OptionT Gen β} {a : α}
    (h : m.run.run d = (some a, d₁)) : (m >>= f).run.run d = (f a).run.run d₁ := by
  rw [OptionT.run_bind, Option.elimM, run_bind, h]
  rfl

/-- A computation without a result ends a sequence. -/
theorem run_andThen_none {d d₁ : Draft} {m : OptionT Gen α} {f : α → OptionT Gen β}
    (h : m.run.run d = (none, d₁)) : (m >>= f).run.run d = (none, d₁) := by
  rw [OptionT.run_bind, Option.elimM, run_bind, h]
  rfl

theorem run_lift (m : Gen α) (d : Draft) :
    (liftM m : OptionT Gen α).run.run d = (some (m.run d).1, (m.run d).2) := rfl

theorem run_temp (purpose : String) (d : Draft) : (temp purpose).run d =
    (d.options.temp purpose (d.count (.temp purpose)), d.draw (.temp purpose)) := rfl

theorem run_reserve (purpose : String) (d : Draft) : (reserve purpose).run d =
    (d.options.list purpose (d.count (.list purpose)), d.draw (.list purpose)) := rfl

theorem run_synthesize (purpose : String) (lines : List String) (d : Draft) :
    (synthesize purpose lines).run d =
      (d.options.list purpose (d.count (.list purpose)), d.withList purpose lines) := rfl

theorem run_capture (act : Gen α) (d : Draft) {lines : List String}
    (h : d.pushFrame.Grows lines (act.run d.pushFrame).2) : (capture act).run d =
      (((act.run d.pushFrame).1, lines), (act.run d.pushFrame).2.popFrame) := by
  show (((act.run d.pushFrame).1, ((act.run d.pushFrame).2.frames.head?.map Array.toList).getD []),
    (act.run d.pushFrame).2.popFrame) = _
  rw [h.popFrame.1]
  rfl

theorem run_inScope (act : Gen α) (d : Draft) : (inScope act).run d =
    ((act.run d.pushScope).1, (act.run d.pushScope).2.popScope) := rfl

theorem run_newVariable (name : String) (d : Draft) : (newVariable name).run d =
    if Draft.variableEntry name 0 ∉ d.taken then
      (⟨Draft.variableEntry name 0, d.options.objective⟩,
        { d with taken := Draft.variableEntry name 0 :: d.taken })
    else
      let n := Draft.freeNumber d.taken name d.taken.length (d.count (.variable name) + 1)
      (⟨Draft.variableEntry name n, d.options.objective⟩,
        { d with
          taken := Draft.variableEntry name n :: d.taken
          counters := d.counters.put (.variable name) n }) := by
  show ((if Draft.variableEntry name 0 ∉ d.taken then _ else _ : Gen Score)).run d = _
  split <;> rfl

/-! ## Growth through computations -/

/-- The computation makes every draft grow. -/
def Grows (m : Gen α) : Prop := ∀ d : Draft, ∃ lines, d.Grows lines (m.run d).2

/-- The computation makes every draft grow, but writes no line and binds no name. -/
structure Silent (m : Gen α) : Prop where
  grow : ∀ d : Draft, d.Grows [] (m.run d).2
  scopes : ∀ d : Draft, (m.run d).2.scopes = d.scopes

namespace Silent

theorem grows {m : Gen α} (h : Silent m) : Grows m := fun d => ⟨[], h.grow d⟩

theorem pure (a : α) : Silent (Pure.pure a : Gen α) := ⟨fun d => .refl d, fun _ => rfl⟩

theorem bind {m : Gen α} {f : α → Gen β} (hm : Silent m) (hf : ∀ a, Silent (f a)) :
    Silent (m >>= f) :=
  ⟨fun d => (hm.grow d).trans ((hf (m.run d).1).grow (m.run d).2),
    fun d => ((hf (m.run d).1).scopes (m.run d).2).trans (hm.scopes d)⟩

theorem temp (purpose : String) : Silent (Gen.temp purpose) :=
  ⟨fun d => .draw d (.temp purpose), fun _ => rfl⟩

theorem newVariable (name : String) : Silent (Gen.newVariable name) := by
  refine ⟨fun d => ?_, fun d => ?_⟩
  · rw [run_newVariable]
    split
    · exact ⟨rfl, (Draft.addLines_nil _).symm, rfl, fun _ => le_rfl, List.subset_cons_self _ _, rfl,
        rfl, fun _ _ _ _ => rfl, fun _ _ => rfl, id⟩
    · refine ⟨rfl, (Draft.addLines_nil _).symm, rfl, fun series => ?_, List.subset_cons_self _ _,
        rfl, rfl, fun _ _ _ _ => rfl, fun _ _ => rfl, id⟩
      show d.count series ≤ ((d.counters.put (.variable name) _).get? series).getD 0
      by_cases hs : series = .variable name
      · subst hs
        rw [Table.get?_put_self]
        exact (Nat.le_succ _).trans (Draft.le_freeNumber _ _ _ _)
      · rw [Table.get?_put_of_ne _ _ hs]
        exact le_rfl
  · rw [run_newVariable]
    split <;> rfl

theorem synthesize {purpose : String} (hp : Lettered purpose) (lines : List String) :
    Silent (Gen.synthesize purpose lines) :=
  ⟨fun d => .withList hp lines d, fun _ => rfl⟩

end Silent

theorem grows_emitAll : ∀ (lines : List String) (d : Draft),
    d.Grows lines ((emitAll lines).run d).2
  | [], d => .refl d
  | line :: lines, d => (Draft.Grows.emit d line).trans (grows_emitAll lines (d.emit line))

theorem run_emit (line : String) (d : Draft) : (emit line).run d = ((), d.write [line]) := by
  show ((), d.emit line) = _
  unfold Draft.emit Draft.write
  cases hf : d.frames with
  | nil =>
    have hd : d = { d with frames := [] } := by rw [← hf]
    exact congrArg _ hd
  | cons frame outer => simp [Draft.addLines]

theorem run_emitAll : ∀ (lines : List String) (d : Draft),
    (emitAll lines).run d = ((), d.write lines)
  | [], d => by
    unfold Draft.write
    rw [Draft.addLines_nil]
    rfl
  | line :: lines, d => by
    show (emitAll lines).run ((emit line).run d).2 = _
    rw [run_emit, run_emitAll lines]
    unfold Draft.write
    rw [Draft.addLines_addLines]
    rfl

namespace Grows

theorem pure (a : α) : Grows (Pure.pure a : Gen α) := fun d => ⟨[], .refl d⟩

theorem bind {m : Gen α} {f : α → Gen β} (hm : Grows m) (hf : ∀ a, Grows (f a)) :
    Grows (m >>= f) := by
  intro d
  obtain ⟨lines, h⟩ := hm d
  obtain ⟨lines', h'⟩ := hf (m.run d).1 (m.run d).2
  exact ⟨lines ++ lines', h.trans h'⟩

theorem emit (line : String) : Grows (Gen.emit line) := fun d => ⟨[line], .emit d line⟩

theorem declare (name : String) (value : Value) : Grows (Gen.bind name value) :=
  fun d => ⟨[], .bind d name value⟩

theorem emitAll (lines : List String) : Grows (Gen.emitAll lines) :=
  fun d => ⟨lines, grows_emitAll lines d⟩

theorem complain (issue : Issue) (span : Span) : Grows (Gen.complain issue span) := fun _ =>
  ⟨[], rfl, (Draft.addLines_nil _).symm, rfl, fun _ => le_rfl, fun _ h => h, rfl, rfl,
    fun _ _ _ _ => rfl, fun _ _ => rfl, id⟩

theorem capture {act : Gen α} (h : Grows act) : Grows (Gen.capture act) := by
  intro d
  obtain ⟨lines, hlines⟩ := h d.pushFrame
  rw [run_capture act d hlines]
  exact ⟨[], hlines.popFrame.2⟩

theorem inScope {act : Gen α} (h : Grows act) : Grows (Gen.inScope act) := by
  intro d
  obtain ⟨lines, hlines⟩ := h d.pushScope
  exact ⟨lines, hlines.popScope.2⟩

end Grows

end Gen

/-! ## All of generation -/

open Gen

theorem Gen.Silent.draws : Draws Silent where
  pure := .pure
  bind := .bind
  temp _ := .temp _
  synthesize := .synthesize

namespace Condition

/-- The lines of a condition are returned, not written. -/
theorem silent_lower (c : Condition) (run : String) : Silent (c.lower run) :=
  Silent.draws.lower c run

theorem silent_lowerEach (cs : List Condition) (run : String) : Silent (lowerEach cs run) :=
  Silent.draws.lowerEach cs run

theorem silent_lowerAll (negated : Bool) (cs : List Condition) (run : String) :
    Silent (lowerAll negated cs run) :=
  Silent.draws.lowerAll negated cs run

end Condition

/-- A function goes into the pack, unless it has the name of the main list. -/
theorem run_generateFunction (x : Declared) (annotations : List Annotation) (body : Gen Unit)
    (d : Draft) : (generateFunction x annotations body).run d =
      if x.name = d.options.main then (complain (.reservedName x.name) x.span).run d
      else (capture body >>= fun r =>
        addTagged ⟨d.options.space, x.name⟩ annotations r.2).run d := by
  show (if x.name = d.options.main then _ else _ : Gen Unit).run d = _
  split <;> rfl

/-- A loop whose condition has a meaning: its list holds the lines of the body, those that prepare
the condition and the guarded call of the list; the last two are written, too. -/
theorem run_generateLoop {condition : Gen (Option Condition)} {body : Gen Unit} {c : Condition}
    {setup guard lines : List String} {d d₁ d₂ d₃ : Draft}
    (hsetup : (capture condition).run (d.draw (.list "while")) = ((some c, setup), d₁))
    (hguard : (c.lower (Line.call (d.options.list "while" (d.count (.list "while"))))).run d₁ =
      (guard, d₂))
    (hbody : (capture body).run d₂ = (((), lines), d₃)) :
    (generateLoop condition body).run d =
      ((), ((d₃.withFunction (d.options.list "while" (d.count (.list "while")))
        (lines ++ setup ++ guard)).write setup).write guard) := by
  rw [generateLoop, run_bind, run_reserve, run_bind, hsetup]
  show (c.lower (Line.call (d.options.list "while" (d.count (.list "while")))) >>= fun guard =>
    capture body >>= fun r =>
      addFunction (d.options.list "while" (d.count (.list "while"))) (r.2 ++ setup ++ guard) >>=
        fun _ => emitAll setup >>= fun _ => emitAll guard).run d₁ = _
  rw [run_bind, hguard, run_bind, hbody, run_bind]
  show (emitAll setup >>= fun _ => emitAll guard).run (d₃.withFunction _ _) = _
  rw [run_bind, run_emitAll, run_emitAll]

/-- A loop draws the name of its list first and puts the list into the pack last. -/
theorem grows_loop {condition : Gen (Option Condition)} {body : Gen Unit}
    (hcondition : Gen.Grows condition) (hbody : Gen.Grows body) :
    Gen.Grows (generateLoop condition body) := by
  intro d
  have hdraw : d.Grows [] (d.draw (.list "while")) := .draw d _
  obtain ⟨setup, hsetup⟩ := hcondition (d.draw (.list "while")).pushFrame
  rw [generateLoop, run_bind, run_reserve, run_bind, run_capture _ _ hsetup]
  split
  · exact ⟨[], hdraw.trans hsetup.popFrame.2⟩
  · rename_i c _ _
    have hguard := hsetup.popFrame.2.trans
      ((c.silent_lower (Line.call (d.options.list "while" (d.count (.list "while"))))).grow _)
    obtain ⟨lines, hlines⟩ := hbody (Draft.pushFrame _)
    rw [run_bind, run_bind, run_capture _ _ hlines]
    have hwhile : Lettered "while" := by decide
    have hbefore := hguard.trans hlines.popFrame.2
    have hlist := (hdraw.trans hbefore).addFunction hwhile le_rfl
      ((d.lt_count_draw _).trans_le (hbefore.count _))
    obtain ⟨rest, hrest⟩ := (Grows.emitAll _).bind (fun _ => Grows.emitAll _) _
    exact ⟨_, (hlist _).trans hrest⟩

theorem Gen.Grows.writes : Writes Grows where
  pure := .pure
  bind := .bind
  temp _ := (Silent.temp _).grows
  synthesize hp lines := (Silent.synthesize hp lines).grows
  read _ _ d := ⟨[], .refl d⟩
  emit := .emit
  complain := .complain

/-- Everything makes a draft grow, but for the declaration of a function. -/
theorem Gen.Grows.makes : Makes Grows Grows fun _ => False where
  toWrites := Grows.writes
  weaken h := h
  andThen := .bind
  newVariable _ := (Silent.newVariable _).grows
  declare := .declare
  capture := .capture
  inScope := .inScope
  loop := grows_loop
  function h := h.elim

theorem Expr.grows_generateCondition (e : Expr) : Gen.Grows e.generateCondition.run :=
  Grows.writes.generateCondition e

mutual

/-- The statement declares no function inside. -/
def Stmt.flat : Stmt → Bool
  | .block _ body => flatAll body
  | .ifElse _ _ thenBranch none => thenBranch.flat
  | .ifElse _ _ thenBranch (some elseBranch) => thenBranch.flat && elseBranch.flat
  | .while _ _ body => body.flat
  | .context _ _ _ body => body.flat
  | .function _ _ _ _ => false
  | _ => true

/-- None of the statements declares a function inside. -/
def flatAll : List Stmt → Bool
  | [] => true
  | s :: ss => s.flat && flatAll ss

end

theorem flatAll_iff {ss : List Stmt} : flatAll ss = true ↔ ∀ s ∈ ss, s.flat = true := by
  induction ss with
  | nil => exact ⟨fun _ _ hs => (nomatch hs), fun _ => rfl⟩
  | cons s ss ih => rw [flatAll, Bool.and_eq_true, ih, List.forall_mem_cons]

/-- A statement that declares no function inside has no function among its parts. -/
theorem Stmt.names_of_flat {s : Stmt} (h : s.flat = true) : s.Names fun _ => False := by
  intro span x annotations body hpart
  induction hpart with
  | self => cases h
  | @child c t hc _ ih =>
    refine ih ?_
    cases t with
    | block => exact flatAll_iff.mp h c hc
    | ifElse span e thenBranch elseBranch =>
      cases elseBranch with
      | none =>
        obtain rfl := List.mem_singleton.mp hc
        exact h
      | some elseBranch =>
        have hb := Bool.and_eq_true_iff.mp h
        rcases List.mem_pair.mp hc with rfl | rfl
        · exact hb.1
        · exact hb.2
    | «while» | context =>
      obtain rfl := List.mem_singleton.mp hc
      exact h
    | function => cases h
    | letBinding | var | assign | expr | enum | command | «return» | error => cases hc

/-- **Statements that declare no function make every draft grow.** -/
theorem grows_generateAll (ss : List Stmt) (h : flatAll ss = true) : Gen.Grows (generateAll ss) :=
  Grows.makes.body ss fun s hs => Stmt.names_of_flat (flatAll_iff.mp h s hs)

theorem run_generateAll_append (ss ss' : List Stmt) (d : Draft) :
    (generateAll (ss ++ ss')).run d = (generateAll ss').run ((generateAll ss).run d).2 := by
  induction ss generalizing d with
  | nil => rfl
  | cons s ss ih =>
    rw [List.cons_append, generateAll, run_bind, ih, generateAll, run_bind]

end Packwright
