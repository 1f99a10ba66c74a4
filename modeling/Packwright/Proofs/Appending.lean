import Packwright.Proofs.Functions

/-!
# Generation appends

Lists and scopes are opened and closed while code is generated.  Whatever is opened is closed again:
a statement writes at the end of the innermost list, binds in the innermost scope, and leaves all
others as they are.  The lines that it writes do not depend on the lists that are there already.

* `Draft.Extends N d d'`: what is kept of a draft.
* `Gen.Local N m`: on all lists that are being written, the computation has the same result and
  writes the same lines.
* `Gen.Local.makes`: the walk through generation.
* `Draft.addScripts_appends`: scripts that are added one after the other.
* `generation_appends`: statements and scripts.
-/

namespace Packwright

open Gen

namespace Draft

/-- The draft with other lists that are being written. -/
def onto (d : Draft) (frames : List (Array String)) : Draft := { d with frames }

/-- What is kept of a draft.  Functions whose names satisfy `N` may have come into the pack. -/
structure Extends (N : String → Prop) (d d' : Draft) : Prop where
  options : d'.options = d.options
  depth : d'.scopes.length = d.scopes.length
  outer : d'.scopes.drop 1 = d.scopes.drop 1
  count : ∀ series, d.count series ≤ d'.count series
  taken : d.taken ⊆ d'.taken
  /-- A list under an id that was handed out before stays as it is. -/
  kept : ∀ id, d.Reserved id → (∀ x, N x → id ≠ ⟨d.options.space, x⟩) →
    d'.pack.function? id = d.pack.function? id

namespace Extends

variable {N : String → Prop} {d d₁ d₂ : Draft}

theorem refl (d : Draft) : d.Extends N d :=
  ⟨rfl, rfl, rfl, fun _ => le_rfl, fun _ h => h, fun _ _ _ => rfl⟩

theorem reserved (h : d.Extends N d₁) {id : ResourceId} (hid : d.Reserved id) : d₁.Reserved id := by
  obtain ⟨purpose, n, hp, hn, rfl⟩ := hid
  exact ⟨purpose, n, hp, hn.trans_le (h.count _), by rw [h.options]⟩

theorem trans (h : d.Extends N d₁) (h' : d₁.Extends N d₂) : d.Extends N d₂ := by
  refine ⟨h'.options.trans h.options, h'.depth.trans h.depth, h'.outer.trans h.outer,
    fun series => (h.count series).trans (h'.count series), fun _ he => h'.taken (h.taken he),
    fun id hid hN => ?_⟩
  rw [h'.kept id (h.reserved hid) (by rwa [h.options]), h.kept id hid hN]

/-- A computation that writes nothing and binds nothing. -/
theorem of_silent {α : Type} {m : Gen α} (h : Silent m) (d : Draft) : d.Extends N (m.run d).2 := by
  have hgrow := h.grow d
  refine ⟨hgrow.options, congrArg _ (h.scopes d), hgrow.scopes, hgrow.count, hgrow.taken, ?_⟩
  rintro _ ⟨purpose, n, hp, hn, rfl⟩ -
  exact hgrow.kept purpose n hp hn

theorem draw (d : Draft) (series : Series) : d.Extends N (d.draw series) :=
  have hgrow := Grows.draw d series
  ⟨rfl, rfl, rfl, hgrow.count, hgrow.taken, fun _ _ _ => rfl⟩

theorem bind (d : Draft) (x : String) (v : Value) : d.Extends N (d.bind x v) := by
  unfold Draft.bind
  split
  · rename_i hscopes
    refine ⟨rfl, ?_, ?_, fun _ => le_rfl, fun _ h => h, fun _ _ _ => rfl⟩ <;> rw [hscopes] <;> rfl
  · exact refl d

/-- What is bound in a scope of its own is gone with the scope. -/
theorem popScope (h : d.pushScope.Extends N d₁) : d.Extends N d₁.popScope := by
  have hscopes : d₁.popScope.scopes = d.scopes := h.outer
  refine ⟨h.options, ?_, ?_, h.count, h.taken, h.kept⟩ <;> rw [hscopes]

/-- A list may come into the pack under an id that was not handed out, or that a function has. -/
theorem addFunction (h : d.Extends N d₁) {id : ResourceId}
    (hid : ¬ d.Reserved id ∨ ∃ x, N x ∧ id = ⟨d.options.space, x⟩) (lines : List String) :
    d.Extends N { d₁ with pack := d₁.pack.addFunction id lines } := by
  refine ⟨h.options, h.depth, h.outer, h.count, h.taken, fun id' hid' hN => ?_⟩
  rw [← h.kept id' hid' hN]
  refine Table.get?_put_of_ne _ _ ?_
  rintro rfl
  rcases hid with hid | ⟨x, hx, rfl⟩
  · exact hid hid'
  · exact hN x hx rfl

/-- Tags are no lists. -/
theorem addTags (h : d.Extends N d₁) (tags : List Tag) (id : ResourceId) :
    d.Extends N { d₁ with pack := tags.foldl (·.addTag · id) d₁.pack } := by
  refine ⟨h.options, h.depth, h.outer, h.count, h.taken, fun id' hid' hN => ?_⟩
  rw [← h.kept id' hid' hN]
  exact congrArg (Table.get? · id') (Pack.functions_foldl_addTag id tags d₁.pack)

end Extends

end Draft

/-! ## Computations -/

namespace Gen

variable {α β : Type} {N : String → Prop}

/-- From a draft on, the computation looks at no list that is being written: on all of them it has
the same result and writes the same lines at the end of the innermost.  The draft behind it extends
an earlier one. -/
def LocalFrom (N : String → Prop) (start d : Draft) (m : Gen α) : Prop :=
  ∃ a lines d', start.Extends N d' ∧
    ∀ frames, m.run (d.onto frames) = (a, d'.onto (Draft.addLines frames lines))

/-- The computation looks at no list that is being written, and extends every draft. -/
def Local (N : String → Prop) (m : Gen α) : Prop := ∀ d : Draft, LocalFrom N d d m

/-- A computation that writes nothing, and whose result is known. -/
theorem LocalFrom.behind {m : Gen α} {f : α → Gen β} {start d : Draft} (a : α) (d₁ : Draft)
    (hm : ∀ frames, m.run (d.onto frames) = (a, d₁.onto frames)) (hf : LocalFrom N start d₁ (f a)) :
    LocalFrom N start d (m >>= f) := by
  obtain ⟨b, lines, d₂, h₂, hrun⟩ := hf
  refine ⟨b, lines, d₂, h₂, fun frames => ?_⟩
  rw [run_bind, hm, hrun]

/-- What is read of a draft is not one of the lists that are being written. -/
theorem LocalFrom.read {f : Draft → Gen β} {start d : Draft}
    (hread : ∀ frames, f (d.onto frames) = f d) (hf : LocalFrom N start d (f d)) :
    LocalFrom N start d (MonadState.get >>= f) := by
  obtain ⟨b, lines, d₁, h₁, hrun⟩ := hf
  refine ⟨b, lines, d₁, h₁, fun frames => ?_⟩
  rw [← hrun, ← hread frames]
  rfl

/-- What is captured of a computation is what it writes everywhere. -/
theorem run_capture_onto {m : Gen α} {d d' : Draft} {a : α} {lines : List String}
    (h : ∀ frames, m.run (d.onto frames) = (a, d'.onto (Draft.addLines frames lines)))
    (frames : List (Array String)) :
    (capture m).run (d.onto frames) = ((a, lines), d'.onto frames) := by
  show (((m.run (d.onto (#[] :: frames))).1,
    ((m.run (d.onto (#[] :: frames))).2.frames.head?.map Array.toList).getD []),
    (m.run (d.onto (#[] :: frames))).2.popFrame) = _
  rw [h]
  simp [Draft.addLines, Draft.onto, Draft.popFrame]

namespace Local

theorem silent {m : Gen α} (h : Silent m)
    (hrun : ∀ d frames, m.run (d.onto frames) = ((m.run d).1, (m.run d).2.onto frames)) :
    Local N m := fun d => ⟨_, [], _, .of_silent h d, fun frames => by rw [hrun, Draft.addLines_nil]⟩

theorem pure (a : α) : Local N (Pure.pure a : Gen α) := .silent (.pure a) fun _ _ => rfl

theorem start {m : Gen α} (h : Local N m) {start d : Draft} (hd : start.Extends N d) :
    LocalFrom N start d m := by
  obtain ⟨a, lines, d', hd', hrun⟩ := h d
  exact ⟨a, lines, d', hd.trans hd', hrun⟩

/-- One computation behind another.  What comes behind may be local only from drafts that extend the
earlier one. -/
theorem andThen {m : Gen α} {f : α → Gen β} (hm : Local N m) {start d : Draft}
    (hd : start.Extends N d) (hf : ∀ a d₁, start.Extends N d₁ → LocalFrom N start d₁ (f a)) :
    LocalFrom N start d (m >>= f) := by
  obtain ⟨a, lines, d₁, h₁, hrun₁⟩ := hm.start hd
  obtain ⟨b, lines', d₂, h₂, hrun₂⟩ := hf a d₁ h₁
  refine ⟨b, lines ++ lines', d₂, h₂, fun frames => ?_⟩
  rw [run_bind, hrun₁, hrun₂, Draft.addLines_addLines]

theorem bind {m : Gen α} {f : α → Gen β} (hm : Local N m) (hf : ∀ a, Local N (f a)) :
    Local N (m >>= f) := fun d => hm.andThen (.refl d) fun a _ h₁ => (hf a).start h₁

theorem newVariable (x : String) : Local N (Gen.newVariable x) := by
  refine .silent (.newVariable x) fun d frames => ?_
  rw [run_newVariable, run_newVariable]
  show (if Draft.variableEntry x 0 ∉ d.taken then _ else _) = _
  split <;> rfl

theorem declare (x : String) (v : Value) : Local N (Gen.bind x v) := by
  intro d
  refine ⟨(), [], d.bind x v, .bind d x v, fun frames => ?_⟩
  rw [Draft.addLines_nil]
  obtain ⟨options, pack, _, scopes, counters, taken, issues⟩ := d
  cases scopes <;> rfl

theorem capture {m : Gen α} (h : Local N m) : Local N (Gen.capture m) := by
  intro d
  obtain ⟨a, lines, d', hd', hrun⟩ := h d
  refine ⟨(a, lines), [], d', hd', fun frames => ?_⟩
  rw [run_capture_onto hrun, Draft.addLines_nil]

theorem inScope {m : Gen α} (h : Local N m) : Local N (Gen.inScope m) := by
  intro d
  obtain ⟨a, lines, d', hd', hrun⟩ := h d.pushScope
  refine ⟨a, lines, d'.popScope, hd'.popScope, fun frames => ?_⟩
  rw [run_inScope]
  show ((m.run (d.pushScope.onto frames)).1, (m.run (d.pushScope.onto frames)).2.popScope) = _
  rw [hrun]
  rfl

theorem writes : Writes (Local N) where
  pure := .pure
  bind := .bind
  temp _ := .silent (.temp _) fun _ _ => rfl
  synthesize hp lines := .silent (.synthesize hp lines) fun _ _ => rfl
  read f hf d := .read (fun frames => congrArg Pure.pure (hf d frames)) (pure (f d) d)
  emit line d := ⟨(), [line], d, .refl d, fun frames => run_emit line (d.onto frames)⟩
  complain issue span d := by
    refine ⟨(), [], { d with issues := d.issues ++ [⟨issue, span⟩] },
      ⟨rfl, rfl, rfl, fun _ => le_rfl, fun _ h => h, fun _ _ _ => rfl⟩, fun frames => ?_⟩
    rw [Draft.addLines_nil]
    rfl

/-- The name of a loop is handed out when the loop begins, so no list has it. -/
theorem loop {condition : Gen (Option Condition)} {body : Gen Unit} (hcondition : Local N condition)
    (hbody : Local N body) : Local N (generateLoop condition body) := by
  intro d
  have hwhile : Lettered "while" := by decide
  refine .behind (d.options.list "while" (d.count (.list "while"))) (d.draw (.list "while"))
    (fun _ => rfl) ?_
  refine hcondition.capture.andThen (.draw d _) fun result d₁ h₁ => ?_
  split
  · exact (pure ()).start h₁
  · rename_i c setup
    refine andThen (writes.lower c _) h₁ fun guard d₂ h₂ => ?_
    refine hbody.capture.andThen h₂ fun result d₃ h₃ => ?_
    have h₄ := h₃.addFunction (.inl (d.not_reserved_next hwhile)) (result.2 ++ setup ++ guard)
    refine .behind () _ (fun _ => rfl) (start ?_ h₄)
    exact bind (writes.emitAll setup) fun _ => writes.emitAll guard

theorem function {x : Declared} {annotations : List Annotation} {body : Gen Unit} (hx : N x.name)
    (hbody : Local N body) : Local N (generateFunction x annotations body) := by
  intro d
  refine .read (fun _ => rfl) ?_
  dsimp only
  split
  · exact writes.complain _ _ d
  · refine hbody.capture.andThen (.refl d) fun result d₁ h₁ => ?_
    have h₂ := h₁.addFunction (.inr ⟨x.name, hx, rfl⟩) result.2
    refine ⟨(), [], _, h₂.addTags (annotations.filterMap fun a => Tag.ofName? a.name)
      ⟨d.options.space, x.name⟩, fun frames => ?_⟩
    rw [Draft.addLines_nil]
    rfl

/-- **All of generation** is local. -/
theorem makes : Makes (Local N) (Local N) N where
  toWrites := writes
  weaken h := h
  andThen := .bind
  newVariable := .newVariable
  declare := .declare
  capture := .capture
  inScope := .inScope
  loop := .loop
  function := .function

end Local

end Gen

/-! ## Statements and scripts -/

/-- The lines that a computation writes into a list of its own. -/
def Draft.output {α : Type} (d : Draft) (m : Gen α) : List String := ((capture m).run d).1.2

/-- A computation writes into the innermost list what it writes into one of its own. -/
theorem Gen.Local.appends {α : Type} {N : String → Prop} {m : Gen α} (h : Local N m) (d : Draft) :
    (m.run d).2.frames = Draft.addLines d.frames (d.output m) ∧ d.Extends N (m.run d).2 := by
  obtain ⟨a, lines, d', hd', hrun⟩ := h d
  have houtput : d.output m = lines :=
    congrArg (fun result => result.1.2) (run_capture_onto hrun d.frames)
  have hm : m.run d = (a, d'.onto (Draft.addLines d.frames lines)) := hrun d.frames
  rw [hm, houtput]
  exact ⟨rfl, hd'.options, hd'.depth, hd'.outer, hd'.count, hd'.taken, hd'.kept⟩

/-- A function of the name is declared in the statement. -/
def Stmt.Declares (t : Stmt) (x : String) : Prop :=
  ∃ span y annotations body, (function span y annotations body).Part t ∧ y.name = x

theorem Stmt.Part.trans {p t u : Stmt} (h : p.Part t) (h' : t.Part u) : p.Part u := by
  induction h' with
  | self => exact h
  | child hc _ ih => exact .child hc ih

namespace Draft

/-- The draft behind scripts that are added one after the other. -/
def addScripts (d : Draft) (scripts : List Script) : Draft :=
  scripts.foldl (fun d script => (d.addScript script).2) d

/-- The lines of each of several scripts outside of functions. -/
def topLines : Draft → List Script → List (List String)
  | _, [] => []
  | d, script :: scripts => d.bodyLines script.body :: (d.addScript script).2.topLines scripts

/-- **Scripts one after the other**: each writes its lines behind those of the scripts before it. -/
theorem addScripts_appends (d : Draft) (scripts : List Script) :
    (d.addScripts scripts).frames = addLines d.frames (d.topLines scripts).flatten ∧
      (d.addScripts scripts).scopes.length = d.scopes.length := by
  induction scripts generalizing d with
  | nil => exact ⟨(addLines_nil _).symm, rfl⟩
  | cons script scripts ih =>
    have hbody : Local (fun _ => True) (generateAll script.body) :=
      Local.makes.body script.body fun _ _ _ _ _ _ _ => trivial
    obtain ⟨hframes, hextends⟩ := hbody.inScope.appends d
    obtain ⟨hrest, hdepth⟩ := ih (d.addScript script).2
    refine ⟨?_, hdepth.trans hextends.depth⟩
    show ((d.addScript script).2.addScripts scripts).frames = _
    rw [hrest, topLines, List.flatten_cons, ← addLines_addLines]
    exact congrArg (addLines · _) hframes

end Draft

/-- **Generation only appends, and only to the innermost.**

* Whatever the draft, a statement adds its lines at the end of the innermost list that is being
  written, and changes no other.  No scope is opened or closed, and none changes but the innermost.
  Series count upwards, entries of variables stay taken, and lists under ids that were handed out
  before stay as they are, unless the statement declares a function under such an id.
* No statement of a source does that.
* Behind scripts that are added to an empty draft there is one list that is being written and one
  scope, and the main list has the lines of the scripts one after the other. -/
theorem generation_appends :
    (∀ (t : Stmt) (d : Draft),
      (t.generate.run d).2.frames = Draft.addLines d.frames (d.output t.generate) ∧
        d.Extends t.Declares (t.generate.run d).2) ∧
    (∀ (source : String) (registry : Registry) (t : Stmt), (analyze source registry).1.Contains t →
      ∀ (d : Draft) (id : ResourceId), d.Reserved id →
        (t.generate.run d).2.pack.function? id = d.pack.function? id) ∧
    ∀ (options : Options) (scripts : List Script),
      ((Draft.empty options).addScripts scripts).frames.length = 1 ∧
      ((Draft.empty options).addScripts scripts).scopes.length = 1 ∧
      ((Draft.empty options).addScripts scripts).mainLines =
        ((Draft.empty options).topLines scripts).flatten := by
  have hlocal : ∀ t : Stmt, Local t.Declares t.generate := fun t =>
    Local.makes.branch t fun span y annotations body hpart =>
      ⟨span, y, annotations, body, hpart, rfl⟩
  refine ⟨fun t d => (hlocal t).appends d, fun source registry t ht d id hid => ?_,
    fun options scripts => ?_⟩
  · refine ((hlocal t).appends d).2.kept id hid ?_
    rintro _ ⟨span, y, annotations, body, hpart, rfl⟩
    obtain ⟨u, hu, htu⟩ := ht
    exact hid.ne (analyze_names source registry u hu _ _ _ _ (hpart.trans htu))
  · obtain ⟨hframes, hdepth⟩ := (Draft.empty options).addScripts_appends scripts
    refine ⟨by rw [hframes]; rfl, hdepth, ?_⟩
    rw [Draft.mainLines, hframes]
    simp [Draft.empty, Draft.addLines]

namespace TwoScripts

/-- A source with a loop. -/
def loop : String := "var x = 3\nwhile (x > 0) \x7b\n say \"a\"\n x -= 1\n\x7d"

/-- A source with a function between other statements. -/
def choice : String :=
  "say \"b\"\nfunction f \x7b say \"c\" \x7d\n" ++
    "if (true) \x7b say \"d\" \x7d else \x7b say \"e\" \x7d"

/-- The id of the list of the loop. -/
def loopId : ResourceId := ⟨"datascript", "__generated__/while_0"⟩

end TwoScripts

open TwoScripts in
theorem generation_appends_twoScripts :
    ((Draft.empty {}).addScripts [(analyze loop {}).1]).Reserved loopId ∧
    (((Draft.empty {}).addScripts [(analyze loop {}).1]).pack.function? loopId).isSome = true ∧
    (∃ t, (analyze choice {}).1.Contains t ∧ t.functionName? = some "f" ∧
      (t.generate.run ((Draft.empty {}).addScripts [(analyze loop {}).1])).2.pack.function? loopId =
        ((Draft.empty {}).addScripts [(analyze loop {}).1]).pack.function? loopId) ∧
    ((Draft.empty {}).addScripts [(analyze loop {}).1, (analyze choice {}).1]).mainLines =
      ["scoreboard players set $x datascript 3",
        "execute if score $x datascript matches 1.. run function datascript:__generated__/while_0",
        "say b", "scoreboard players set #ranIf0 datascript 0",
        "function datascript:__generated__/if_0",
        "execute unless score #ranIf0 datascript matches 1 run say e"] := by
  obtain ⟨-, hkept, hscripts⟩ := generation_appends
  have hreserved : ((Draft.empty {}).addScripts [(analyze loop {}).1]).Reserved loopId :=
    ⟨"while", 0, by decide, by decide +kernel, by decide +kernel⟩
  have hf : ∃ t ∈ (analyze choice {}).1.body, t.functionName? = some "f" := by decide +kernel
  obtain ⟨t, ht, hname⟩ := hf
  refine ⟨hreserved, by decide +kernel, ⟨t, ⟨t, ht, .self⟩, hname, ?_⟩, ?_⟩
  · exact hkept choice {} t ⟨t, ht, .self⟩ _ loopId hreserved
  · rw [(hscripts {} _).2.2]
    decide +kernel

end Packwright
