import Packwright.Proofs.Growth
import Packwright.Proofs.Parts

/-!
# Walking through generation

Generation is made of few computations: it draws names, writes lines, complains, and puts lists into
the pack.  A property of computations that these have, and that sequences inherit from their parts,
is a property of all of generation.  The walk through the functions of generation is made here once.

* `Gen.Draws P`: the draws for a purpose have the property `P`; so has the lowering of a condition.
* `Gen.Writes P`: writing and complaining have it, too; so have expressions and commands.
* `Gen.Makes P Q N`: what a statement needs beyond that.  A statement that binds a name has the
  weaker property `Q`, which a scope turns into `P`.  The names of functions satisfy `N`.
-/

namespace Packwright

namespace Gen

/-- A property of computations that sequences inherit, and that the draws for a purpose have. -/
structure Draws (P : {α : Type} → Gen α → Prop) : Prop where
  pure : ∀ {α : Type} (a : α), P (Pure.pure a : Gen α)
  bind : ∀ {α β : Type} {m : Gen α} {f : α → Gen β}, P m → (∀ a, P (f a)) → P (m >>= f)
  temp : ∀ {purpose : String}, Lettered purpose → P (Gen.temp purpose)
  synthesize : ∀ {purpose : String}, Lettered purpose → ∀ lines, P (Gen.synthesize purpose lines)

/-- A property of draws that writing and complaining have, too. -/
structure Writes (P : {α : Type} → Gen α → Prop) : Prop extends Draws P where
  /-- Nothing is read of the lists that are being written. -/
  read : ∀ {α : Type} (f : Draft → α), (∀ d frames, f { d with frames } = f d) →
    P (do return f (← MonadState.get))
  emit : ∀ line, P (Gen.emit line)
  complain : ∀ issue span, P (Gen.complain issue span)

/-- A property `P` of what writes and binds no name, and a property `Q` of what may bind one.  The
names of functions satisfy `N`. -/
structure Makes (P Q : {α : Type} → Gen α → Prop) (N : String → Prop) : Prop extends Writes P where
  weaken : ∀ {α : Type} {m : Gen α}, P m → Q m
  andThen : ∀ {α β : Type} {m : Gen α} {f : α → Gen β}, Q m → (∀ a, Q (f a)) → Q (m >>= f)
  newVariable : ∀ x, P (Gen.newVariable x)
  declare : ∀ x v, Q (Gen.bind x v)
  capture : ∀ {α : Type} {m : Gen α}, P m → P (Gen.capture m)
  inScope : ∀ {α : Type} {m : Gen α}, Q m → P (Gen.inScope m)
  /-- A loop draws the name of its list first and puts the list into the pack last. -/
  loop : ∀ {condition : Gen (Option Condition)} {body : Gen Unit}, P condition → P body →
    P (generateLoop condition body)
  function : ∀ {x : Declared} {annotations : List Annotation} {body : Gen Unit}, N x.name →
    P body → P (generateFunction x annotations body)

variable {P Q : {α : Type} → Gen α → Prop} {N : String → Prop} {α β : Type}

/-! ## Conditions -/

namespace Draws

theorem lift (h : Draws P) {m : Gen α} (hm : P m) : P (OptionT.run (liftM m : OptionT Gen α)) :=
  h.bind hm fun _ => h.pure _

theorem some (h : Draws P) (a : α) : P (OptionT.run (Pure.pure a : OptionT Gen α)) := h.pure _

theorem none (h : Draws P) : P (OptionT.run (failure : OptionT Gen α)) := h.pure _

theorem andThen (h : Draws P) {m : OptionT Gen α} {f : α → OptionT Gen β} (hm : P m.run)
    (hf : ∀ a, P (f a).run) : P (m >>= f).run := by
  rw [OptionT.run_bind]
  refine h.bind hm fun a => ?_
  cases a with
  | none => exact h.pure _
  | some a => exact hf a

theorem discard (h : Draws P) {m : Gen α} (hm : P m) : P (Functor.discard m) :=
  h.bind hm fun _ => h.pure _

theorem asCommand (h : Draws P) {purpose : String} (hp : Lettered purpose) (lines : List String) :
    P (Gen.asCommand purpose lines) := by
  unfold Gen.asCommand
  split
  · exact h.pure _
  · exact h.bind (h.synthesize hp lines) fun _ => h.pure _

mutual

/-- **Conditions** are lowered by draws alone. -/
theorem lower (h : Draws P) : ∀ (c : Condition) (run : String), P (c.lower run)
  | .leaf _ (.constant _), _ | .leaf _ (.within _ _), _ | .leaf _ (.compare _ _ _), _
  | .leaf _ (.entity _), _ | .leaf _ (.data _), _ => h.pure _
  | .all negated children, run => h.lowerAll negated children run
  | .any negated children, run => by
    unfold Condition.lower
    split
    · exact h.pure _
    · exact h.bind (h.temp (by decide)) fun flag =>
        h.bind (h.lowerEach children (Line.set flag 1)) fun _ => h.pure _

theorem lowerEach (h : Draws P) : ∀ (cs : List Condition) (run : String),
    P (Condition.lowerEach cs run)
  | [], _ => h.pure _
  | c :: cs, run => h.bind (h.lower c run) fun _ => h.bind (h.lowerEach cs run) fun _ => h.pure _

theorem lowerAll (h : Draws P) (negated : Bool) : ∀ (cs : List Condition) (run : String),
    P (Condition.lowerAll negated cs run)
  | [], _ => h.pure _
  | c :: cs, run => by
    unfold Condition.lowerAll
    refine h.bind (h.temp (by decide)) fun flag =>
      h.bind (h.lower c (Line.set flag 1)) fun first => ?_
    dsimp only
    split
    · exact h.pure _
    · refine h.bind (h.lowerAll negated cs run) fun rest => ?_
      split
      · exact h.pure _
      · exact h.bind (h.synthesize (by decide) rest) fun _ => h.pure _

end

end Draws

/-! ## Values and operations -/

namespace Writes

theorem emitAll (h : Writes P) : ∀ lines : List String, P (Gen.emitAll lines)
  | [] => h.pure _
  | line :: lines => h.bind (h.emit line) fun _ => h.emitAll lines

theorem modify (h : Writes P) (target : Score) (op : Arith) (v : Value) :
    P (target.modify op v).run := by
  unfold Score.modify
  split
  · split
    · exact h.lift (h.emit _)
    · exact h.andThen (h.lift (h.temp (by decide))) fun _ =>
        h.andThen (h.lift (h.emit _)) fun _ => h.lift (h.emit _)
  · exact h.lift (h.emit _)
  · exact h.none

theorem compute (h : Writes P) (op : Arith) (source : Score) (v : Value) :
    P (Score.compute op source v).run :=
  h.andThen (h.lift (h.temp (by decide))) fun result => h.andThen (h.lift (h.emit _)) fun _ =>
    h.andThen (h.modify result op v) fun _ => h.some _

theorem opposite (h : Writes P) (source : Score) : P source.opposite :=
  h.bind (h.temp (by decide)) fun _ => h.bind (h.emit _) fun _ => h.bind (h.emit _) fun _ =>
    h.pure _

theorem ofCondition (h : Writes P) (c : Condition) : P (Score.ofCondition c) :=
  h.bind (h.temp (by decide)) fun flag => h.bind (h.emit _) fun _ =>
    h.bind (h.lower c (Line.set flag 1)) fun lines => h.bind (h.emitAll lines) fun _ => h.pure _

theorem store (h : Writes P) (target : Score) (v : Value) : P (target.store v).run := by
  unfold Score.store
  split
  · exact h.lift (h.emit _)
  · exact h.lift (h.emit _)
  · split
    · exact h.some _
    · exact h.lift (h.emit _)
  · exact h.andThen (h.lift (h.ofCondition _)) fun _ => h.lift (h.emit _)
  · exact h.lift (h.emit _)
  · exact h.none

theorem ofValue (h : Writes P) (v : Value) : P (Score.ofValue v).run := by
  have hstore : ∀ v, P (do
      let constant ← liftM (Gen.temp "const")
      constant.store v
      Pure.pure (Value.score constant) : OptionT Gen Value).run := fun v =>
    h.andThen (h.lift (h.temp (by decide))) fun constant =>
      h.andThen (h.store constant v) fun _ => h.some _
  unfold Score.ofValue
  split
  · exact h.andThen (h.lift (h.ofCondition _)) fun _ => h.some _
  · exact hstore _
  · exact hstore _
  · exact hstore _
  · exact h.none

theorem binary (h : Writes P) (rule : BinaryRule) (l r : Value) : P (rule.apply l r).run := by
  unfold BinaryRule.apply
  split
  case h_7 | h_8 =>
    split
    · exact h.some _
    · exact h.none
  case h_12 | h_13 => exact h.compute _ _ _
  case h_14 => exact h.andThen (h.store _ _) fun _ => h.none
  case h_15 => exact h.andThen (h.modify _ _ _) fun _ => h.none
  all_goals exact h.pure _

theorem unary (h : Writes P) (rule : UnaryRule) (v : Value) : P (rule.apply v).run := by
  unfold UnaryRule.apply
  split
  case h_4 => exact h.lift (h.opposite _)
  all_goals exact h.pure _

theorem cast (h : Writes P) (c : Cast) (v : Value) : P (c.apply v).run := by
  unfold Cast.apply
  split
  case h_9 => exact h.ofValue _
  all_goals exact h.pure _

theorem member (h : Writes P) (rule : MemberRule) (v : Value) (name : String) :
    P (rule.apply v name).run := by
  unfold MemberRule.apply
  split
  case h_2 => exact h.andThen (h.lift (h.emit _)) fun _ => h.none
  all_goals exact h.pure _

/-! ## Expressions -/

mutual

/-- **Expressions** draw, write and complain, and do nothing else. -/
theorem generate (h : Writes P) : ∀ e : Expr, P e.generate.run
  | .literal _ v => h.some v
  | .name _ n => h.read (·.lookup? n) fun _ _ => rfl
  | .binary _ _ l r none => h.none
  | .binary _ _ l r (some o) => h.andThen (h.generate l) fun left =>
      h.andThen (h.generate r) fun right => h.binary o.rule left right
  | .unary _ _ e none => h.none
  | .unary _ _ e (some o) => h.andThen (h.generate e) fun v => h.unary o.rule v
  | .cast _ e c => h.andThen (h.generate e) fun v => h.cast c v
  | .range _ l r => h.andThen (h.generateBound l) fun _ => h.andThen (h.generateBound r) fun _ =>
      h.some _
  | .list _ es => h.andThen (h.generateAll es) fun _ => h.some _
  | .compound _ es => h.andThen (h.generateEntries es) fun _ => h.some _
  | .member _ e n m as => h.andThen (h.generate e) fun v => h.andThen (h.generateAll as) fun _ =>
      h.member m.rule v n
  | .dataPath _ e path => h.andThen (h.generate e) fun v => by
      split
      · exact h.some _
      · exact h.none
  | .variant _ _ _ => h.some _
  | .call _ target => h.bind (h.read (·.options.space) fun _ _ => rfl) fun space =>
      h.bind (h.emit (Line.call (target.resolve space))) fun _ => h.none
  | .error _ => h.none

theorem generateAll (h : Writes P) : ∀ es : List Expr, P (Expr.generateAll es).run
  | [] => h.some _
  | e :: es => h.andThen (h.generate e) fun _ => h.andThen (h.generateAll es) fun _ => h.some _

theorem generateEntries (h : Writes P) : ∀ es : List (String × Expr),
    P (Expr.generateEntries es).run
  | [] => h.some _
  | (_, e) :: es => h.andThen (h.generate e) fun _ => h.andThen (h.generateEntries es) fun _ =>
      h.some _

theorem generateBound (h : Writes P) : ∀ e : Option Expr, P (Expr.generateBound e).run
  | none => h.some _
  | some e => h.andThen (h.generate e) fun v => by
      split
      · exact h.some _
      · exact h.none

end

theorem generateCondition (h : Writes P) (e : Expr) : P e.generateCondition.run := by
  refine h.andThen (h.generate e) fun v => ?_
  split
  · exact h.some _
  · exact h.some _
  · split
    · exact h.none
    · refine h.andThen (h.cast _ v) fun _ => ?_
      split
      · exact h.some _
      · exact h.none

theorem generateSelector (h : Writes P) (e : Expr) : P e.generateSelector.run := by
  refine h.andThen (h.generate e) fun v => ?_
  split
  · exact h.some _
  · exact h.none

theorem generateConstant (h : Writes P) (e : Expr) (what : String) :
    P (e.generateConstant what).run := by
  refine h.andThen (h.generate e) fun v => ?_
  split
  · exact h.andThen (h.lift (h.complain _ _)) fun _ => h.none
  · exact h.some _

/-! ## Commands -/

theorem component (h : Writes P) (v : Value) : P v.component := by
  unfold Value.component
  split
  case h_4 => exact h.bind (h.ofCondition _) fun _ => h.pure _
  all_goals exact h.pure _

theorem components (h : Writes P) : ∀ es : List Expr, P (Command.components es)
  | [] => h.pure _
  | e :: es => by
    refine h.bind (h.generate e) fun v => ?_
    split
    · exact h.components es
    · exact h.bind (h.component _) fun _ => h.bind (h.components es) fun _ => h.pure _

theorem optional (h : Writes P) (before what : String) (e : Option Expr) :
    P (Command.optional before what e).run := by
  cases e with
  | none => exact h.some _
  | some e => exact h.andThen (h.generateConstant e what) fun _ => h.some _

theorem command (h : Writes P) (c : Command) : P c.generate.run := by
  have hemit : ∀ line, P (liftM (Gen.emit line) : OptionT Gen Unit).run := fun line =>
    h.lift (h.emit line)
  cases c with
  | say message => exact h.andThen (h.generateConstant message _) fun _ => hemit _
  | tellraw target parts =>
    exact h.andThen (h.generateSelector target) fun _ =>
      h.andThen (h.lift (h.components parts)) fun _ => hemit _
  | give target item count =>
    exact h.andThen (h.generateSelector target) fun _ =>
      h.andThen (h.generateConstant item _) fun _ =>
        h.andThen (h.optional _ _ count) fun _ => hemit _
  | tag target add name => exact h.andThen (h.generateSelector target) fun _ => hemit _
  | kill target =>
    cases target with
    | none => exact hemit _
    | some target => exact h.andThen (h.generateSelector target) fun _ => hemit _
  | summon entity data =>
    exact h.andThen (h.generateConstant entity _) fun _ =>
      h.andThen (h.optional _ _ data) fun _ => hemit _
  | raw text =>
    refine h.andThen (h.generateConstant text _) fun v => ?_
    split
    · exact hemit _
    · exact h.none

/-! ## Statements -/

theorem generateWhen (h : Writes P) (c : Condition) (lines : List String) :
    P (Packwright.generateWhen c lines) := by
  unfold Packwright.generateWhen
  split
  · exact h.pure _
  · exact h.bind (h.asCommand (by decide) lines) fun run =>
      h.bind (h.lower c run) fun _ => h.emitAll _

theorem generateEither (h : Writes P) (c : Condition) (ran : Score)
    (thenLines elseLines : List String) :
    P (Packwright.generateEither c ran thenLines elseLines) := by
  refine h.bind (h.emit _) fun _ => h.bind (h.synthesize (by decide) _) fun id =>
    h.bind (h.lower c _) fun _ => h.bind (h.emitAll _) fun _ => ?_
  split
  · exact h.pure _
  · exact h.bind (h.asCommand (by decide) elseLines) fun _ => h.emit _

end Writes

end Gen

theorem ContextKind.lettered_word (kind : ContextKind) : Lettered kind.word := by
  cases kind <;> decide

namespace Stmt

/-- Whether the statement binds a name in the scope where it stands. -/
def binds : Stmt → Bool
  | letBinding _ _ _ | var _ _ _ _ => true
  | _ => false

/-- The functions that are declared in a statement have names that satisfy `N`. -/
def Names (N : String → Prop) (t : Stmt) : Prop :=
  ∀ span x annotations body, (function span x annotations body).Part t → N x.name

theorem Names.child {N : String → Prop} {t u : Stmt} (h : t.Names N) (hu : u ∈ t.children) :
    u.Names N := fun _ _ _ _ hpart => h _ _ _ _ (.child hu hpart)

end Stmt

namespace Gen.Makes

variable {P Q : {α : Type} → Gen α → Prop} {N : String → Prop}

theorem declaration (h : Makes P Q N) (x : String) (initial : Option Value)
    (operation : Option Operation) :
    Q (do
      let score ← Gen.newVariable x
      match initial, operation with
      | some v, some o => discard (o.rule.apply (.score score) v).run
      | _, _ => Pure.pure ()
      Gen.bind x (.score score)) := by
  refine h.andThen (h.weaken (h.newVariable x)) fun score => ?_
  cases initial with
  | none => exact h.declare _ _
  | some v =>
    cases operation with
    | none => exact h.declare _ _
    | some o =>
      exact h.andThen (h.weaken (h.discard (h.binary o.rule (.score score) v))) fun _ =>
        h.declare _ _

mutual

/-- **Statements**: one that binds no name has the property `P`, and one that does has `Q`. -/
theorem statement (h : Makes P Q N) : ∀ t : Stmt, t.Names N →
    P t.generate ∨ t.binds = true ∧ Q t.generate
  | .letBinding _ declared value, _ => by
    refine .inr ⟨rfl, h.andThen (h.weaken (h.generate value)) fun v => ?_⟩
    split
    · exact h.declare _ _
    · exact h.weaken (h.pure _)
  | .var _ declared none operation, _ => .inr ⟨rfl, h.declaration declared.name none operation⟩
  | .var _ declared (some e) operation, _ =>
    .inr ⟨rfl, h.andThen (h.weaken (h.generate e)) fun v => h.declaration declared.name v operation⟩
  | .assign _ target _ value operation, _ => by
    left
    cases operation with
    | none => exact h.pure _
    | some o =>
      refine h.bind (h.generate target) fun left => h.bind (h.generate value) fun right => ?_
      split
      · exact h.discard (h.binary o.rule _ _)
      · exact h.pure _
  | .expr _ e, _ => .inl (h.discard (h.generate e))
  | .block _ body, hnames => .inl (h.inScope (h.body body fun _ ht => hnames.child ht))
  | .ifElse _ e thenBranch none, hnames => by
    have hthen := h.branch thenBranch (hnames.child (by simp [Stmt.children]))
    refine .inl (h.bind (h.generateCondition e) fun c => ?_)
    split
    · exact h.pure _
    · exact h.bind (h.capture (h.inScope hthen)) fun _ => h.generateWhen _ _
  | .ifElse _ e thenBranch (some elseBranch), hnames => by
    have hthen := h.branch thenBranch (hnames.child (by simp [Stmt.children]))
    have helse := h.branch elseBranch (hnames.child (by simp [Stmt.children]))
    refine .inl (h.bind (h.generateCondition e) fun c => ?_)
    split
    · exact h.pure _
    · exact h.bind (h.capture (h.inScope hthen)) fun _ => h.bind (h.temp (by decide)) fun _ =>
        h.bind (h.capture (h.inScope helse)) fun _ => h.generateEither _ _ _ _
  | .while _ e body, hnames => by
    have hbody := h.branch body (hnames.child (by simp [Stmt.children]))
    exact .inl (h.loop (h.generateCondition e) (h.inScope hbody))
  | .function span x annotations body, hnames =>
    .inl (h.function (hnames _ _ _ _ .self) (h.inScope (h.body body fun _ ht => hnames.child ht)))
  | .enum _ _ _, _ => .inl (h.pure _)
  | .context _ kind e body, hnames => by
    have hbody := h.branch body (hnames.child (by simp [Stmt.children]))
    refine .inl (h.bind (h.generateSelector e) fun selector => ?_)
    split
    · exact h.pure _
    · refine h.bind (h.capture (h.inScope hbody)) fun result => ?_
      dsimp only
      split
      · exact h.pure _
      · exact h.bind (h.asCommand kind.lettered_word _) fun _ => h.emit _
  | .command _ command, _ => .inl (h.discard (h.command command))
  | .return _, _ => .inl (h.emit _)
  | .error _, _ => .inl (h.pure _)

theorem branch (h : Makes P Q N) (t : Stmt) (hnames : t.Names N) : Q t.generate := by
  rcases h.statement t hnames with ht | ⟨-, ht⟩
  · exact h.weaken ht
  · exact ht

theorem body (h : Makes P Q N) : ∀ ts : List Stmt, (∀ t ∈ ts, t.Names N) → Q (generateAll ts)
  | [], _ => h.weaken (h.pure _)
  | t :: ts, hnames =>
    h.andThen (h.branch t (hnames t List.mem_cons_self)) fun _ =>
      h.body ts fun u hu => hnames u (List.mem_cons_of_mem _ hu)

end

end Gen.Makes

end Packwright
