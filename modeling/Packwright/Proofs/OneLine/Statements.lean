import Packwright.Proofs.OneLine.Generation

/-!
# Commands and statements on their lines

Most commands quote the texts that they take over.  `say` and `cmd` take a text over as it is, and
so does `tag` with a name; they alone can break a line.

* `Command.unbroken`, `Stmt.unbroken`: no text that is taken over as it is has a line feed, when
  generation comes to the statement with a given draft.
* `Command.oneLine_generate`: what one command writes.
* `Stmt.oneLine_generate`, `oneLine_generateAll`: what statements write.
-/

namespace Packwright

open Gen Text

/-! ## Commands -/

/-- The components of a chat message are on one line, whatever texts stand in them. -/
theorem Value.keepsLines_component {v : Value} (hv : OneLine v.render) :
    KeepsLines v.component fun j => OneLine j.compact := by
  have hscore : ∀ s : Score, OneLine s.component.compact := by
    intro s
    simp [Score.component]
  unfold component
  split
  case h_4 =>
    exact (Score.keepsLines_ofCondition hv).bind fun s _ => .pure (hscore s)
  case h_1 => exact .pure (hscore _)
  all_goals exact .pure (by simp)

namespace Command

theorem keepsLines_components {es : List Expr} (h : ∀ e ∈ es, e.OneLine) :
    KeepsLines (components es) fun js => ∀ j ∈ js, OneLine j.compact := by
  induction es with
  | nil => exact .pure (List.forall_mem_nil _)
  | cons e es ih =>
    obtain ⟨he, hes⟩ := List.forall_mem_cons.mp h
    refine KeepsLines.bind (e.keepsSome_generate he) fun o ho => ?_
    cases o with
    | none => exact ih hes
    | some v =>
      refine (Value.keepsLines_component (ho v rfl)).bind fun j hj => ?_
      exact (ih hes).bind fun js hjs => .pure (List.forall_mem_cons.mpr ⟨hj, hjs⟩)

theorem keepsSome_optional {before : String} (hbefore : OneLine before) (what : String)
    {e : Option Expr} (h : ∀ c ∈ e.toList, c.OneLine) :
    KeepsSome (optional before what e) OneLine := by
  cases e with
  | none => exact .some (by decide)
  | some e =>
    refine (Expr.keepsSome_generateConstant (List.forall_mem_singleton.mp h) what).bind ?_
    exact fun v hv => .some (oneLine_append.mpr ⟨hbefore, hv⟩)

/-- No text that the command takes over as it is has a line feed, when generation comes to it with
the draft `d`. -/
def unbroken (d : Draft) : Command → Bool
  | say message =>
    ((message.generateConstant "`say` text").run.run d).1.all fun v => decide (OneLine v.plain)
  | raw text =>
    ((text.generateConstant "`cmd` text").run.run d).1.all fun v => decide (OneLine v.plain)
  | tag _ _ name => decide (OneLine name)
  | tellraw _ _ | give _ _ _ | kill _ | summon _ _ => true

/-- A constant is taken over as it is. -/
theorem oneLine_constant {e : Expr} (he : e.OneLine) {what : String} {d : Draft} (hd : d.OneLine)
    {f : Value → OptionT Gen Unit}
    (hf : ∀ v ∈ ((e.generateConstant what).run.run d).1, KeepsSome (f v) fun _ => True) :
    ((e.generateConstant what >>= f).run.run d).2.OneLine := by
  obtain ⟨o, d₁, hrun, hd₁, -⟩ := (e.keepsSome_generateConstant he what).exists_run hd
  rw [hrun] at hf
  cases o with
  | none =>
    rw [run_andThen_none hrun]
    exact hd₁
  | some v =>
    rw [run_andThen hrun]
    exact (hf v rfl d₁ hd₁).1

/-- **Commands** write one line each. -/
theorem oneLine_generate {c : Command} (hoperands : ∀ e ∈ c.operands, e.OneLine) {d : Draft}
    (hd : d.OneLine) (hc : c.unbroken d = true) : (c.generate.run.run d).2.OneLine := by
  have hselector : ∀ {e : Expr}, e ∈ c.operands →
      KeepsSome e.generateSelector fun s => OneLine s.text :=
    fun he => Expr.keepsSome_generateSelector (hoperands _ he)
  have hconstant : ∀ {e : Expr} (what : String), e ∈ c.operands →
      KeepsSome (e.generateConstant what) fun v => OneLine v.render :=
    fun what he => Expr.keepsSome_generateConstant (hoperands _ he) what
  cases c with
  | say message =>
    refine oneLine_constant (hoperands _ (by simp [operands])) hd fun v hv => .emit ?_
    rw [unbroken, Option.mem_def.mp hv, Option.all_some] at hc
    exact oneLine_append.mpr ⟨by decide, of_decide_eq_true hc⟩
  | raw text =>
    refine oneLine_constant (hoperands _ (by simp [operands])) hd fun v hv => ?_
    rw [unbroken, Option.mem_def.mp hv, Option.all_some] at hc
    split
    · exact .emit (of_decide_eq_true hc)
    · exact .none
  | tag target add name =>
    have hname : OneLine name := of_decide_eq_true hc
    have hkeeps : KeepsSome (tag target add name).generate fun _ => True := by
      refine (hselector (by simp [operands])).bind fun s hs => .emit ?_
      cases add <;> simp +decide [hs, hname]
    exact (hkeeps d hd).1
  | tellraw target parts =>
    have hparts : ∀ e ∈ parts, e.OneLine := fun e he => hoperands e (by simp [operands, he])
    have hkeeps : KeepsSome (tellraw target parts).generate fun _ => True := by
      refine (hselector (by simp [operands])).bind fun s hs => ?_
      refine (KeepsSome.lift (keepsLines_components hparts)).bind fun js hjs => .emit ?_
      have hmessage : OneLine (Json.array (.string "" :: js)).compact :=
        Json.oneLine_compact_array.mpr
          (List.forall_mem_cons.mpr ⟨Json.oneLine_compact_string _, hjs⟩)
      simp +decide only [oneLine_append, hs, hmessage]
    exact (hkeeps d hd).1
  | give target item count =>
    have hcount : ∀ e ∈ count.toList, e.OneLine := fun e he => hoperands e (by simp [operands, he])
    have hkeeps : KeepsSome (give target item count).generate fun _ => True := by
      refine (hselector (by simp [operands])).bind fun s hs => ?_
      refine (hconstant _ (by simp [operands])).bind fun v hv => ?_
      refine (keepsSome_optional (by decide) _ hcount).bind fun number hnumber => .emit ?_
      simp +decide [hs, hv, hnumber]
    exact (hkeeps d hd).1
  | kill target =>
    have hkeeps : KeepsSome (kill target).generate fun _ => True := by
      cases target with
      | none => exact .emit (by decide)
      | some target =>
        refine (hselector (by simp [operands])).bind fun s hs => .emit ?_
        simp +decide [hs]
    exact (hkeeps d hd).1
  | summon entity data =>
    have hdata : ∀ e ∈ data.toList, e.OneLine := fun e he => hoperands e (by simp [operands, he])
    have hkeeps : KeepsSome (summon entity data).generate fun _ => True := by
      refine (hconstant _ (by simp [operands])).bind fun v hv => ?_
      refine (keepsSome_optional (by decide) _ hdata).bind fun details hdetails => .emit ?_
      simp +decide [hv, hdetails]
    exact (hkeeps d hd).1

end Command

/-! ## Statements -/

namespace Stmt

/-- What a statement brings into lines has no line feed: its expressions, and the name of a
variable. -/
structure OneLineNode (t : Stmt) : Prop where
  operands : ∀ e ∈ t.operands, e.OneLine
  entry : ∀ span x e o, t = var span x e o → Text.OneLine x.name

/-- What the statements in the statement bring into lines has no line feed. -/
def OneLine (t : Stmt) : Prop := ∀ p : Stmt, p.Part t → p.OneLineNode

theorem OneLine.node {t : Stmt} (h : t.OneLine) : t.OneLineNode := h t .self

theorem OneLine.child {t u : Stmt} (h : t.OneLine) (hu : u ∈ t.children) : u.OneLine :=
  fun p hp => h p (.child hu hp)

end Stmt

mutual

/-- No text that the commands of the statement take over as it is has a line feed, when generation
comes to the statement with the draft `d`. -/
def Stmt.unbroken : Stmt → Draft → Bool
  | .command _ c, d => c.unbroken d
  | .block _ body, d => unbrokenAll body d.pushScope
  | .ifElse _ e t none, d =>
    match e.generateCondition.run.run d with
    | (none, _) => true
    | (some _, d) => t.unbroken d.pushFrame.pushScope
  | .ifElse _ e t (some u), d =>
    match e.generateCondition.run.run d with
    | (none, _) => true
    | (some _, d) =>
      t.unbroken d.pushFrame.pushScope &&
        u.unbroken ((do
          let _ ← capture (inScope t.generate)
          temp "ranIf").run d).2.pushFrame.pushScope
  | .while _ e body, d =>
    let (id, d) := (reserve "while").run d
    match (capture e.generateCondition.run).run d with
    | ((none, _), _) => true
    | ((some c, _), d) => body.unbroken ((c.lower (Line.call id)).run d).2.pushFrame.pushScope
  | .function _ x _ body, d =>
    x.name = d.options.main || unbrokenAll body d.pushFrame.pushScope
  | .context _ _ e body, d =>
    match e.generateSelector.run.run d with
    | (none, _) => true
    | (some _, d) => body.unbroken d.pushFrame.pushScope
  | .letBinding _ _ _, _ | .var _ _ _ _, _ | .assign _ _ _ _ _, _ | .expr _ _, _ | .enum _ _ _, _
  | .return _, _ | .error _, _ => true

/-- The same for several statements, one after the other. -/
def unbrokenAll : List Stmt → Draft → Bool
  | [], _ => true
  | t :: ts, d => t.unbroken d && unbrokenAll ts (t.generate.run d).2

end

theorem keepsLines_generateWhen {c : Condition} (hc : OneLine c.text) {lines : List String}
    (hlines : ∀ line ∈ lines, OneLine line) :
    KeepsLines (generateWhen c lines) fun _ => True := by
  unfold generateWhen
  split
  · exact .pure trivial
  · refine (KeepsLines.asCommand (by decide) hlines).bind fun run hrun => ?_
    exact (c.keepsLines_lower hc hrun).bind fun _ htests => .emitAll htests

theorem keepsLines_generateEither {c : Condition} (hc : OneLine c.text) {ran : Score}
    (hran : OneLine ran.text) {thenLines elseLines : List String}
    (hthen : ∀ line ∈ thenLines, OneLine line) (helse : ∀ line ∈ elseLines, OneLine line) :
    KeepsLines (generateEither c ran thenLines elseLines) fun _ => True := by
  have hset : ∀ n, OneLine (Line.set ran n) := fun _ => Line.oneLine_set.mpr hran
  refine (KeepsLines.emit (hset 0)).bind fun _ _ => ?_
  refine (KeepsLines.synthesize (by decide)
    (List.forall_mem_cons.mpr ⟨hset 1, hthen⟩)).bind fun id hid => ?_
  refine (c.keepsLines_lower hc (Line.oneLine_call.mpr hid)).bind fun _ htests => ?_
  refine (KeepsLines.emitAll htests).bind fun _ _ => ?_
  split
  · exact .pure trivial
  · refine (KeepsLines.asCommand (by decide) helse).bind fun run hrun => ?_
    exact .emit (Line.oneLine_guardAmount.mpr ⟨hran, hrun⟩)

theorem keepsLines_addTagged (id : ResourceId) (annotations : List Annotation)
    {lines : List String} (hlines : ∀ line ∈ lines, OneLine line) :
    KeepsLines (addTagged id annotations lines) fun _ => True := by
  refine (KeepsLines.addFunction id hlines).bind fun _ _ d hd => ⟨⟨hd.options, ?_, hd.frames,
    hd.scopes⟩, trivial⟩
  intro f hf
  change f ∈ (List.foldl _ _ _ : Pack).functions at hf
  rw [Pack.functions_foldl_addTag] at hf
  exact hd.pack f hf

/-- A loop that has a condition: its list, and the lines that come to it. -/
theorem keepsLines_loopEnd {id : ResourceId} {lines setup guard : List String}
    (hlines : ∀ line ∈ lines, OneLine line) (hsetup : ∀ line ∈ setup, OneLine line)
    (hguard : ∀ line ∈ guard, OneLine line) :
    KeepsLines (do
      addFunction id (lines ++ setup ++ guard)
      emitAll setup
      emitAll guard) fun _ => True := by
  refine (KeepsLines.addFunction id ?_).bind fun _ _ => ?_
  · exact List.forall_mem_append.mpr ⟨List.forall_mem_append.mpr ⟨hlines, hsetup⟩, hguard⟩
  · exact (KeepsLines.emitAll hsetup).bind fun _ _ => .emitAll hguard

theorem keepsLines_context (kind : ContextKind) {s : Selector} (hs : OneLine s.text)
    {lines : List String} (hlines : ∀ line ∈ lines, OneLine line) :
    KeepsLines (do
      if lines.isEmpty then return
      let run ← asCommand kind.word lines
      emit (Line.within kind.word s run)) fun _ => True := by
  have hword : OneLine kind.word := by cases kind <;> decide
  split
  · exact .pure trivial
  · refine (KeepsLines.asCommand hword hlines).bind fun run hrun => ?_
    exact .emit (Line.oneLine_within.mpr ⟨hword, hs, hrun⟩)

/-! ### Statements without others inside -/

theorem keepsLines_letBinding (span : Span) (x : Declared) {e : Expr} (he : e.OneLine) :
    KeepsLines (Stmt.letBinding span x e).generate fun _ => True := by
  refine KeepsLines.bind (e.keepsSome_generate he) fun o ho => ?_
  cases o with
  | none => exact .pure trivial
  | some v => exact .declare _ (ho v rfl)

/-- A new variable, with the value that it is given first. -/
theorem keepsLines_var (span : Span) {x : Declared} (hx : OneLine x.name) {e : Option Expr}
    (he : ∀ c ∈ e, c.OneLine) (o : Option Operation) :
    KeepsLines (Stmt.var span x e o).generate fun _ => True := by
  -- `f` assigns the first value, if there is one
  have hdeclare : ∀ {f : Score → Gen Unit},
      (∀ score, OneLine score.text → KeepsLines (f score) fun _ => True) →
      KeepsLines (do
        let score ← newVariable x.name
        f score
        Gen.bind x.name (.score score)) fun _ => True := fun hf =>
    (KeepsLines.newVariable hx).bind fun score hscore =>
      (hf score hscore).bind fun _ _ => .declare _ (Value.oneLine_render_score.mpr hscore)
  have hundefined := hdeclare (f := fun _ => pure ()) fun _ _ => .pure trivial
  cases e with
  | none => exact hundefined
  | some e =>
    refine KeepsLines.bind (e.keepsSome_generate (he e rfl)) fun initial hinitial => ?_
    cases initial with
    | none => exact hundefined
    | some v =>
      cases o with
      | none => exact hundefined
      | some o =>
        exact hdeclare fun score hscore => .discard
          (o.rule.keepsSome_apply (Value.oneLine_render_score.mpr hscore) (hinitial v rfl))

theorem keepsLines_assign (span : Span) {target value : Expr} (htarget : target.OneLine)
    (hvalue : value.OneLine) (op : BinaryOp) (o : Option Operation) :
    KeepsLines (Stmt.assign span target op value o).generate fun _ => True := by
  cases o with
  | none => exact .pure trivial
  | some o =>
    refine KeepsLines.bind (target.keepsSome_generate htarget) fun left hleft => ?_
    refine KeepsLines.bind (value.keepsSome_generate hvalue) fun right hright => ?_
    split
    · exact .discard (o.rule.keepsSome_apply (hleft _ rfl) (hright _ rfl))
    · exact .pure trivial

/-! ### All statements -/

mutual

/-- **Statements** that take over no line feed write lines. -/
theorem Stmt.oneLine_generate : ∀ (t : Stmt) {d : Draft}, t.OneLine → t.unbroken d = true →
    d.OneLine → (t.generate.run d).2.OneLine
  | .letBinding span x e, d, ht, _, hd =>
    (keepsLines_letBinding span x (ht.node.operands e (by simp [Stmt.operands])) d hd).1
  | .var span x e o, d, ht, _, hd => by
    have he : ∀ c ∈ e, c.OneLine := fun c hc =>
      ht.node.operands c (by simpa [Stmt.operands] using hc)
    exact (keepsLines_var span (ht.node.entry span x e o rfl) he o d hd).1
  | .assign span target op value o, d, ht, _, hd =>
    (keepsLines_assign span (ht.node.operands _ (by simp [Stmt.operands]))
      (ht.node.operands _ (by simp [Stmt.operands])) op o d hd).1
  | .expr _ e, d, ht, _, hd =>
    (e.keepsSome_generate (ht.node.operands e (by simp [Stmt.operands])) d hd).1
  | .block _ body, d, ht, hbroken, hd =>
    (oneLine_generateAll body (fun _ hu => ht.child hu) hbroken hd.pushScope).popScope
  | .ifElse _ e t none, d, ht, hbroken, hd => by
    obtain ⟨o, d₁, hrun, hd₁, hc⟩ := (Expr.keepsSome_generateCondition
      (ht.node.operands e (by simp [Stmt.operands]))).exists_run hd
    rw [Stmt.generate, run_bind, hrun]
    rw [Stmt.unbroken, hrun] at hbroken
    cases o with
    | none => exact hd₁
    | some c =>
      obtain ⟨hd₂, hlines⟩ := oneLine_scoped (t.oneLine_generate
        (ht.child (by simp [Stmt.children])) hbroken hd₁.pushFrame.pushScope)
      exact (keepsLines_generateWhen (hc c rfl) hlines _ hd₂).1
  | .ifElse _ e t (some u), d, ht, hbroken, hd => by
    obtain ⟨o, d₁, hrun, hd₁, hc⟩ := (Expr.keepsSome_generateCondition
      (ht.node.operands e (by simp [Stmt.operands]))).exists_run hd
    rw [Stmt.generate, run_bind, hrun]
    rw [Stmt.unbroken, hrun] at hbroken
    cases o with
    | none => exact hd₁
    | some c =>
      obtain ⟨hthen, helse⟩ := Bool.and_eq_true_iff.mp hbroken
      obtain ⟨hd₂, hthenLines⟩ := oneLine_scoped (t.oneLine_generate
        (ht.child (by simp [Stmt.children])) hthen hd₁.pushFrame.pushScope)
      have htemp : KeepsLines (temp "ranIf") fun s => OneLine s.text := .temp (by decide)
      obtain ⟨hd₃, hran⟩ := htemp _ hd₂
      obtain ⟨hd₄, helseLines⟩ := oneLine_scoped (u.oneLine_generate
        (ht.child (by simp [Stmt.children])) helse hd₃.pushFrame.pushScope)
      exact (keepsLines_generateEither (hc c rfl) hran hthenLines helseLines _ hd₄).1
  | .while _ e body, d, ht, hbroken, hd => by
    have he := Expr.keepsSome_generateCondition (ht.node.operands e (by simp [Stmt.operands]))
    have hreserve : KeepsLines (reserve "while") fun id => OneLine id.text := .reserve (by decide)
    obtain ⟨id, d₁, hdraw, hd₁, hid⟩ := hreserve.exists_run hd
    obtain ⟨⟨o, setup⟩, d₂, hrun, hd₂, hc, hsetup⟩ := (KeepsLines.capture he).exists_run hd₁
    rw [Stmt.generate, generateLoop, run_bind, hdraw, run_bind, hrun]
    rw [Stmt.unbroken, hdraw] at hbroken
    dsimp only at hbroken
    rw [hrun] at hbroken
    cases o with
    | none => exact hd₂
    | some c =>
      obtain ⟨hd₃, hguard⟩ := c.keepsLines_lower (hc c rfl) (Line.oneLine_call.mpr hid) _ hd₂
      obtain ⟨hd₄, hlines⟩ := oneLine_scoped (body.oneLine_generate
        (ht.child (by simp [Stmt.children])) hbroken hd₃.pushFrame.pushScope)
      exact (keepsLines_loopEnd hlines hsetup hguard _ hd₄).1
  | .function _ x annotations body, d, ht, hbroken, hd => by
    rw [Stmt.generate, run_generateFunction]
    split
    · exact (KeepsLines.complain _ _ d hd).1
    · rename_i hmain
      rw [Stmt.unbroken, decide_eq_false hmain, Bool.false_or] at hbroken
      obtain ⟨hd₁, hlines⟩ := oneLine_scoped (oneLine_generateAll body
        (fun _ hu => ht.child hu) hbroken hd.pushFrame.pushScope)
      exact (keepsLines_addTagged _ annotations hlines _ hd₁).1
  | .enum _ _ _, d, _, _, hd => hd
  | .context _ kind e body, d, ht, hbroken, hd => by
    obtain ⟨o, d₁, hrun, hd₁, hs⟩ := (Expr.keepsSome_generateSelector
      (ht.node.operands e (by simp [Stmt.operands]))).exists_run hd
    rw [Stmt.generate, run_bind, hrun]
    rw [Stmt.unbroken, hrun] at hbroken
    cases o with
    | none => exact hd₁
    | some s =>
      obtain ⟨hd₂, hlines⟩ := oneLine_scoped (body.oneLine_generate
        (ht.child (by simp [Stmt.children])) hbroken hd₁.pushFrame.pushScope)
      exact (keepsLines_context kind (hs s rfl) hlines _ hd₂).1
  | .command _ c, d, ht, hbroken, hd => Command.oneLine_generate ht.node.operands hd hbroken
  | .return _, d, _, _, hd => hd.emit (by decide)
  | .error _, d, _, _, hd => hd

theorem oneLine_generateAll : ∀ (ts : List Stmt) {d : Draft}, (∀ t ∈ ts, t.OneLine) →
    unbrokenAll ts d = true → d.OneLine → ((generateAll ts).run d).2.OneLine
  | [], d, _, _, hd => hd
  | t :: ts, d, hts, hbroken, hd => by
    obtain ⟨ht, hts⟩ := List.forall_mem_cons.mp hts
    obtain ⟨hhead, htail⟩ := Bool.and_eq_true_iff.mp hbroken
    rw [generateAll, run_bind]
    exact oneLine_generateAll ts hts htail (t.oneLine_generate ht hhead hd)

end

end Packwright
