import Packwright.Analysis
import Packwright.Proofs.Parsing.Built

/-!
# What a source without errors is like

Reading leaves some nodes of a tree without a type and says nothing: names that are not in scope,
operators on such names, targets that are no scores, and conditions that cannot be cast.  The check
of the tree finds them, with scopes of its own.  So the tree of a source in which neither finds an
error is resolved throughout.

* `Context.Agrees Γ c`: the scopes of the check have the names that reading has in scope.
* `Expr.Built.not_isError`: without an error, an expression has a type.
* `Stmt.Built.sound`: without an error, nothing in a statement is left unresolved, and the scopes
  agree behind it.
* `analyze_built`, `analyze_resolved`: whole sources.
-/

namespace Packwright

/-! ## The results of the tables -/

theorem Value.kind_ne_error (v : Value) : v.kind ≠ .error := by
  cases v with
  | integer w n => cases w <;> exact fun h => nomatch h
  | _ => exact fun h => nomatch h

namespace Kind

theorem result_ne_error {k : Kind} {o : Operation} (h : o ∈ k.operations) : o.result ≠ .error := by
  have hall : k.operations.all (fun o => o.result ≠ .error) = true := by
    cases k <;> decide
  simpa using List.all_eq_true.mp hall o h

theorem unaryResult_ne_error {k : Kind} {o : UnaryOperation} (h : o ∈ k.unaryOperations) :
    o.result ≠ .error := by
  have hall : k.unaryOperations.all (fun o => o.result ≠ .error) = true := by
    cases k <;> decide
  simpa using List.all_eq_true.mp hall o h

theorem memberResult_ne_error {k : Kind} {m : Member} (h : m ∈ k.members) :
    m.result ≠ .error := by
  have hall : k.members.all (fun m => m.result ≠ .error) = true := by
    cases k <;> decide
  simpa using List.all_eq_true.mp hall m h

theorem cast_ne_error {k k' : Kind} {c : Cast} (h : cast? k k' = some c) : k' ≠ .error := by
  rintro rfl
  exact nomatch (mem_castSources_of_cast? h).2

end Kind

/-! ## Scopes of the check -/

theorem Report.append_clean {r s : Report} :
    (r.append s).hasErrors = false ↔ r.hasErrors = false ∧ s.hasErrors = false := by
  rw [hasErrors_append, Bool.or_eq_false_iff]

theorem Report.hasErrors_single {issue : Issue} (h : issue.severity = .error) (span : Span)
    (candidates : List String) : (Report.single issue span candidates).hasErrors = true := by
  rw [single, hasErrors_suggest, hasErrors_add]
  simp [Diagnostic.isError, h]

namespace Context

/-- The scopes of the check have the names that reading has in scope, and all of these have a
type. -/
structure Agrees (Γ : TypeEnv) (c : Context) : Prop where
  inside : c.scopes ≠ []
  declares : ∀ x, c.declares x = (Γ x).isSome
  typed : ∀ x, ∀ ty ∈ Γ x, ty.isError = false

namespace Agrees

variable {Γ : TypeEnv} {c : Context}

theorem enter (h : c.Agrees Γ) : c.enter.Agrees Γ :=
  ⟨List.cons_ne_nil _ _, h.declares, h.typed⟩

theorem enterFunction (h : c.Agrees Γ) : c.enterFunction.Agrees Γ :=
  ⟨List.cons_ne_nil _ _, h.declares, h.typed⟩

/-- A name that is declared for the check is in scope for reading, too. -/
theorem declare (h : c.Agrees Γ) {x : String} {ty : Ty} (hty : ty.isError = false) {span : Span}
    (hclean : (c.declare x span).1.hasErrors = false) :
    (c.declare x span).2.Agrees (Γ.declare x ty) := by
  obtain ⟨scope, outer, hscopes⟩ := List.exists_cons_of_ne_nil h.inside
  unfold Context.declare at hclean ⊢
  rw [hscopes] at hclean ⊢
  simp only at hclean ⊢
  split at hclean
  · rw [Report.hasErrors_single rfl] at hclean
    cases hclean
  · rename_i hfresh
    rw [if_neg hfresh]
    refine ⟨List.cons_ne_nil _ _, fun y => ?_, fun y ty' hy => ?_⟩
    · have hy := h.declares y
      rw [Context.declares, hscopes] at hy
      by_cases hyx : y = x
      · subst hyx
        simp [Context.declares, TypeEnv.declare]
      · simpa [Context.declares, TypeEnv.declare, Function.update_of_ne hyx, hyx] using hy
    · by_cases hyx : y = x
      · subst hyx
        rw [TypeEnv.declare, Function.update_self] at hy
        cases hy
        exact hty
      · rw [TypeEnv.declare, Function.update_of_ne hyx] at hy
        exact h.typed y ty' hy

end Agrees

end Context

/-! ## Expressions -/

namespace Expr

/-- Whether the operator of a node is resolved. -/
def resolved : Expr → Bool
  | binary _ _ _ _ o => o.isSome
  | unary _ _ _ o => o.isSome
  | _ => true

variable {c : Context}

theorem checkAll_clean {es : List Expr} :
    (checkAll c es).hasErrors = false ↔ ∀ e ∈ es, (e.check c).hasErrors = false := by
  induction es with
  | nil => exact ⟨fun _ _ he => (nomatch he), fun _ => rfl⟩
  | cons e es ih => rw [checkAll, Report.append_clean, ih, List.forall_mem_cons]

theorem checkEntries_clean {es : List (String × Expr)} :
    (checkEntries c es).hasErrors = false ↔
      ∀ e ∈ es.map Prod.snd, (e.check c).hasErrors = false := by
  induction es with
  | nil => exact ⟨fun _ _ he => (nomatch he), fun _ => rfl⟩
  | cons e es ih =>
    rw [checkEntries, Report.append_clean, ih, List.map_cons, List.forall_mem_cons]

theorem checkOption_clean {o : Option Expr} :
    (checkOption c o).hasErrors = false ↔ ∀ e ∈ o.toList, (e.check c).hasErrors = false := by
  cases o with
  | none => exact ⟨fun _ _ he => (nomatch he), fun _ => rfl⟩
  | some e => rw [checkOption, Option.toList_some, List.forall_mem_singleton]

/-- The parts of an expression without errors have none. -/
theorem check_children {e : Expr} (h : (e.check c).hasErrors = false) :
    ∀ a ∈ e.children, (a.check c).hasErrors = false := by
  cases e with
  | binary i op l r o =>
    rw [check, Report.append_clean] at h
    exact List.forall_mem_cons.mpr ⟨h.1, List.forall_mem_singleton.mpr h.2⟩
  | unary i op e o =>
    rw [check] at h
    exact List.forall_mem_singleton.mpr h
  | cast i e k =>
    unfold check at h
    exact List.forall_mem_singleton.mpr (Report.append_clean.mp h).1
  | range i l r =>
    rw [check, Report.append_clean, checkOption_clean, checkOption_clean] at h
    exact List.forall_mem_append.mpr h
  | list i es =>
    rw [check] at h
    exact checkAll_clean.mp h
  | compound i es =>
    rw [check] at h
    exact checkEntries_clean.mp h
  | member i e name m as =>
    rw [check, Report.append_clean] at h
    exact List.forall_mem_cons.mpr ⟨h.1, checkAll_clean.mp h.2⟩
  | dataPath i e path =>
    rw [check] at h
    exact List.forall_mem_singleton.mpr h
  | literal | name | variant | call | error => exact fun _ ha => nomatch ha

theorem check_part {e p : Expr} (h : (e.check c).hasErrors = false) (hp : p.Part e) :
    (p.check c).hasErrors = false := by
  induction hp with
  | self => exact h
  | child hc _ ih => exact ih (check_children h _ hc)

namespace Built

variable {Γ : TypeEnv} {b : Bool} {e : Expr}

theorem isError_eq_false {e : Expr} {ty : Ty} (hty : e.ty = ty) (hk : ty.kind ≠ .error) :
    e.isError = false := by
  subst hty
  exact decide_eq_false hk

/-- **Types**: where the check finds no error, an expression has a type. -/
theorem not_isError (h : e.Built False Γ b) (hc : c.Agrees Γ)
    (hclean : (e.check c).hasErrors = false) : e.isError = false := by
  induction h with
  | literal hty => exact isError_eq_false hty (Value.kind_ne_error _)
  | name hx => exact hc.typed _ _ hx
  | @unknown _ i x hx hty =>
    rw [check] at hclean
    split at hclean
    · rename_i hdeclares
      rw [hc.declares, hx] at hdeclares
      cases hdeclares
    · rw [Report.hasErrors_single rfl] at hclean
      cases hclean
  | binary hl hr hop hres hty =>
    obtain ⟨left, -, -, hmem, -⟩ := resolveBinary?_spec hres
    exact isError_eq_false hty (Kind.result_ne_error hmem)
  | @failedBinary _ i op l r hl hr h hty ihl ihr =>
    have hchildren := check_children hclean
    rcases h with (h | h) | h
    · rw [ihl (hchildren l (by simp [children]))] at h
      cases h
    · rw [ihr (hchildren r (by simp [children]))] at h
      cases h
    · exact h.elim
  | unary he hres hty =>
    obtain ⟨operand, -, hmem, -⟩ := resolveUnary?_spec hres
    exact isError_eq_false hty (Kind.unaryResult_ne_error hmem)
  | @failedUnary _ i op e he h hty ih =>
    rcases h with h | h
    · rw [ih (check_children hclean e (by simp [children]))] at h
      cases h
    · exact h.elim
  | cast he hcast hty => exact isError_eq_false hty (Kind.cast_ne_error hcast)
  | @failedRange _ i min max hmin hmax h hty ihmin ihmax =>
    have hchildren := check_children hclean
    rcases h with ⟨e, he | he, herror⟩ | h
    · rw [ihmin e he (hchildren e (by simp_all [children]))] at herror
      cases herror
    · rw [ihmax e he (hchildren e (by simp_all [children]))] at herror
      cases herror
    · exact h.elim
  | member he hm hargs hty =>
    have hresult := Kind.memberResult_ne_error (Kind.mem_members_of_member? hm).1
    exact isError_eq_false hty hresult
  | list hitems hty => exact isError_eq_false rfl (hty ▸ by decide)
  | range _ _ _ hty | compound _ hty | dataPath _ _ hty | variant hty | call hty =>
    exact isError_eq_false hty fun h => by cases h
  | error h | failed _ _ h => exact h.elim

/-- An operator with a type is resolved. -/
theorem resolved_of_not_isError (h : e.Built False Γ b) (herror : e.isError = false) :
    e.resolved = true := by
  cases h with
  | failedBinary _ _ _ hty | failedUnary _ _ hty =>
    rw [isError, info, hty] at herror
    cases herror
  | failed _ _ h => exact h.elim
  | _ => rfl

end Built

/-- Nothing in the expression is left unresolved. -/
def Sound (e : Expr) : Prop := ∀ p : Expr, p.Part e → p.isError = false ∧ p.resolved = true

theorem Built.sound {Γ : TypeEnv} {b : Bool} {e : Expr} (h : e.Built False Γ b) (hc : c.Agrees Γ)
    (hclean : (e.check c).hasErrors = false) : e.Sound := by
  intro p hp
  have herror := (h.part hp).not_isError hc (check_part hclean hp)
  exact ⟨herror, (h.part hp).resolved_of_not_isError herror⟩

/-- **Conditions** of statements are conditions where the check finds no error. -/
theorem Built.condition {Γ : TypeEnv} {b : Bool} {e : Expr} (h : e.Built False Γ b)
    (hc : c.Agrees Γ) (hclean : (e.checkCondition c).hasErrors = false) :
    e.Sound ∧ e.kind = .condition := by
  obtain ⟨hclean, hkind⟩ := Report.append_clean.mp hclean
  refine ⟨h.sound hc hclean, ?_⟩
  split at hkind
  · rw [Report.hasErrors_single rfl] at hkind
    cases hkind
  · rename_i hcondition
    simpa [h.not_isError hc hclean] using hcondition

end Expr

/-! ## Statements -/

namespace Stmt

/-- Whether a statement could be read, its operator is resolved and its condition is one. -/
def resolved : Stmt → Bool
  | var _ _ (some _) o => o.isSome
  | assign _ _ _ _ o => o.isSome
  | ifElse _ e _ _ | .while _ e _ => e.kind = .condition
  | error _ => false
  | _ => true

/-- Nothing in the statement is left unresolved. -/
def Sound (t : Stmt) : Prop :=
  ∀ u : Stmt, u.Part t → u.resolved = true ∧ ∀ e ∈ u.operands, e.Sound

theorem Sound.intro {t : Stmt} (hself : t.resolved = true) (hoperands : ∀ e ∈ t.operands, e.Sound)
    (hchildren : ∀ u ∈ t.children, u.Sound) : t.Sound := by
  intro u hu
  cases hu with
  | self => exact ⟨hself, hoperands⟩
  | child hc hu => exact hchildren _ hc u hu

end Stmt

section Statements

variable {N : String → Prop} {Γ Γ' : TypeEnv} {c : Context}

theorem Stored.isSome {op : BinaryOp} {e : Expr} {o : Option Operation} (h : Stored False Γ op e o)
    (hsound : e.Sound) : o.isSome = true := by
  cases h with
  | resolved he hres => rfl
  | failed he h =>
    rcases h with h | h
    · rw [(hsound e .self).1] at h
      cases h
    · exact h.elim

/-- Where the check finds no error in a command, its operands have none. -/
theorem Command.check_operands {command : Command} (h : (command.check c).hasErrors = false) :
    ∀ e ∈ command.operands, (e.check c).hasErrors = false := by
  cases command with
  | say e | raw e | tag e _ _ => exact List.forall_mem_singleton.mpr h
  | tellraw target parts =>
    rw [check, Report.append_clean, Expr.checkAll_clean] at h
    exact List.forall_mem_cons.mpr h
  | give target item count =>
    rw [check, Report.append_clean, Report.append_clean, Expr.checkOption_clean] at h
    exact List.forall_mem_cons.mpr ⟨h.1.1, List.forall_mem_cons.mpr ⟨h.1.2, h.2⟩⟩
  | kill target => exact Expr.checkOption_clean.mp h
  | summon entity data =>
    rw [check, Report.append_clean, Report.append_clean, Expr.checkOption_clean] at h
    exact List.forall_mem_cons.mpr h.1

theorem Context.Agrees.andDeclare (hc : c.Agrees Γ) {r : Report} {x : Declared} {ty : Ty}
    (hty : ty.isError = false) (hclean : (c.andDeclare r x).1.hasErrors = false) :
    r.hasErrors = false ∧ (c.andDeclare r x).2.Agrees (Γ.declare x.name ty) := by
  obtain ⟨hr, hdeclare⟩ := Report.append_clean.mp hclean
  exact ⟨hr, hc.declare hty hdeclare⟩

mutual

/-- **Statements**: where the check finds no error, nothing is left unresolved, and the scopes of
the check and of reading agree behind the statement. -/
theorem Stmt.Built.sound : ∀ {Γ Γ' : TypeEnv} {t : Stmt} {c : Context}, t.Built False N Γ Γ' →
    c.Agrees Γ → (t.check c).1.hasErrors = false → t.Sound ∧ (t.check c).2.Agrees Γ'
  | _, _, _, c, @Stmt.Built.letPlain _ _ Γ span x e hx he, hc, hclean => by
    rw [Stmt.check] at hclean ⊢
    have hvalue := (Report.append_clean.mp hclean).1
    have hty : e.ty.isError = false := he.not_isError hc hvalue
    refine ⟨.intro rfl ?_ (fun _ hu => nomatch hu), (hc.andDeclare hty hclean).2⟩
    exact List.forall_mem_singleton.mpr (he.sound hc hvalue)
  | _, _, _, c, @Stmt.Built.letTyped _ _ Γ span x e ty hx he hty hkind, hc, hclean => by
    rw [Stmt.check] at hclean ⊢
    obtain ⟨hvalue, hagrees⟩ := hc.andDeclare hty hclean
    refine ⟨.intro rfl ?_ (fun _ hu => nomatch hu), hagrees⟩
    exact List.forall_mem_singleton.mpr (he.sound hc hvalue)
  | _, _, _, c, .varPlain hx, hc, hclean => by
    rw [Stmt.check] at hclean ⊢
    exact ⟨.intro rfl (fun _ he => nomatch he) (fun _ hu => nomatch hu),
      (hc.andDeclare rfl hclean).2⟩
  | _, _, _, c, .var hx he, hc, hclean => by
    rw [Stmt.check] at hclean ⊢
    have hscore : (Ty.plain .score).isError = false := rfl
    obtain ⟨hvalue, hagrees⟩ := hc.andDeclare hscore hclean
    have hsound := he.built.sound hc hvalue
    refine ⟨.intro (he.isSome hsound) ?_ (fun _ hu => nomatch hu), hagrees⟩
    exact List.forall_mem_singleton.mpr hsound
  | _, _, _, c, .assign htarget hkind he, hc, hclean => by
    rw [Stmt.check] at hclean ⊢
    obtain ⟨hparts, -⟩ := Report.append_clean.mp hclean
    obtain ⟨htargetClean, hvalue⟩ := Report.append_clean.mp hparts
    have hsound := he.built.sound hc hvalue
    refine ⟨.intro (he.isSome hsound) ?_ (fun _ hu => nomatch hu), hc⟩
    exact List.forall_mem_cons.mpr
      ⟨htarget.sound hc htargetClean, List.forall_mem_singleton.mpr hsound⟩
  | _, _, _, c, .misassign htarget hkind he, hc, hclean => by
    -- a target that is no score is reported, or it has no type
    rw [Stmt.check] at hclean
    obtain ⟨hparts, htargets⟩ := Report.append_clean.mp hclean
    have herror := htarget.not_isError hc (Report.append_clean.mp hparts).1
    rw [if_pos (by simp [herror, hkind]), Report.hasErrors_single rfl] at htargets
    cases htargets
  | _, _, _, c, .expr he, hc, hclean => by
    rw [Stmt.check] at hclean ⊢
    refine ⟨.intro rfl ?_ (fun _ hu => nomatch hu), hc⟩
    exact List.forall_mem_singleton.mpr (he.sound hc hclean)
  | _, _, _, c, .block hbody, hc, hclean => by
    rw [Stmt.check] at hclean ⊢
    exact ⟨.intro rfl (fun _ he => nomatch he) (hbody.sound hc.enter hclean), hc⟩
  | _, _, _, c, .ifThen he ht, hc, hclean => by
    rw [Stmt.check] at hclean ⊢
    obtain ⟨hcondition, hthen⟩ := Report.append_clean.mp hclean
    obtain ⟨hsound, hkind⟩ := he.asCondition.condition hc hcondition
    refine ⟨.intro (decide_eq_true hkind) (List.forall_mem_singleton.mpr hsound) ?_, hc⟩
    exact List.forall_mem_singleton.mpr (ht.sound hc.enter hthen).1
  | _, _, _, c, .ifElse he ht hu, hc, hclean => by
    rw [Stmt.check] at hclean ⊢
    obtain ⟨hclean, helse⟩ := Report.append_clean.mp hclean
    obtain ⟨hcondition, hthen⟩ := Report.append_clean.mp hclean
    obtain ⟨hsound, hkind⟩ := he.asCondition.condition hc hcondition
    refine ⟨.intro (decide_eq_true hkind) (List.forall_mem_singleton.mpr hsound) ?_, hc⟩
    exact List.forall_mem_cons.mpr ⟨(ht.sound hc.enter hthen).1,
      List.forall_mem_singleton.mpr (hu.sound hc.enter helse).1⟩
  | _, _, _, c, .while he ht, hc, hclean => by
    rw [Stmt.check] at hclean ⊢
    obtain ⟨hcondition, hbody⟩ := Report.append_clean.mp hclean
    obtain ⟨hsound, hkind⟩ := he.asCondition.condition hc hcondition
    refine ⟨.intro (decide_eq_true hkind) (List.forall_mem_singleton.mpr hsound) ?_, hc⟩
    exact List.forall_mem_singleton.mpr (ht.sound hc.enter hbody).1
  | _, _, _, c, .function hx hbody, hc, hclean => by
    rw [Stmt.check] at hclean ⊢
    have hbodyClean := (Report.append_clean.mp hclean).2
    exact ⟨.intro rfl (fun _ he => nomatch he) (hbody.sound hc.enterFunction hbodyClean), hc⟩
  | _, _, _, c, .enum, hc, hclean =>
    ⟨.intro rfl (fun _ he => nomatch he) (fun _ hu => nomatch hu), by rw [Stmt.check]; exact hc⟩
  | _, _, _, c, .context he ht, hc, hclean => by
    rw [Stmt.check] at hclean ⊢
    obtain ⟨hselector, hbody⟩ := Report.append_clean.mp hclean
    refine ⟨.intro rfl (List.forall_mem_singleton.mpr (he.sound hc hselector)) ?_, hc⟩
    exact List.forall_mem_singleton.mpr (ht.sound hc.enter hbody).1
  | _, _, _, c, .command h, hc, hclean => by
    rw [Stmt.check] at hclean ⊢
    refine ⟨.intro rfl (fun e he => ?_) (fun _ hu => nomatch hu), hc⟩
    exact (h e he).sound hc (Command.check_operands hclean e he)
  | _, _, _, c, .return, hc, hclean =>
    ⟨.intro rfl (fun _ he => nomatch he) (fun _ hu => nomatch hu), by rw [Stmt.check]; exact hc⟩
  | _, _, _, c, .error h, hc, hclean => h.elim

theorem BodyBuilt.sound : ∀ {Γ Γ' : TypeEnv} {ts : List Stmt} {c : Context},
    BodyBuilt False N Γ ts Γ' → c.Agrees Γ → (checkBody c ts).hasErrors = false →
      ∀ t ∈ ts, t.Sound
  | _, _, _, _, .nil, _, _ => fun _ ht => nomatch ht
  | _, _, _, _, .cons ht hts, hc, hclean => by
    rw [checkBody] at hclean
    obtain ⟨hhead, htail⟩ := Report.append_clean.mp hclean
    obtain ⟨hsound, hagrees⟩ := ht.sound hc hhead
    exact List.forall_mem_cons.mpr ⟨hsound, hts.sound hagrees htail⟩

end

end Statements

/-! ## Sources -/

theorem Context.scopes_declareGlobals : ∀ (c : Context) (ts : List Stmt),
    (c.declareGlobals ts).2.scopes = c.scopes
  | _, [] => rfl
  | c, t :: ts => by
    have hglobal : ∀ (c : Context) (x : Declared) (kind : GlobalKind),
        (c.declareGlobal x kind).2.scopes = c.scopes := by
      intro c x kind
      unfold Context.declareGlobal
      split <;> rfl
    have hvariants : ∀ (c : Context) (x : String) (variants : List String),
        (c.declareVariants x variants).scopes = c.scopes := by
      intro c x variants
      unfold Context.declareVariants
      split <;> rfl
    unfold Context.declareGlobals
    have hrest := fun c => Context.scopes_declareGlobals c ts
    cases t with
    | function => exact (hrest _).trans (hglobal _ _ _)
    | enum => exact (hrest _).trans ((hglobal _ _ _).trans (hvariants _ _ _))
    | _ => exact hrest _

/-- A source without errors is built without fault, and nothing in it is left unresolved. -/
theorem analyze_built {source : String} {registry : Registry}
    (h : (analyze source registry).2.hasErrors = false) :
    (∃ Γ, BodyBuilt False (Named (tokenize source).1) (fun _ => none)
      (analyze source registry).1.body Γ) ∧ ∀ t ∈ (analyze source registry).1.body, t.Sound := by
  obtain ⟨hread, hcheck⟩ := Report.append_clean.mp h
  obtain ⟨-, hread⟩ := Report.append_clean.mp hread
  obtain ⟨Γ, hbuilt⟩ := parseScript_built (tokenize source).1 (Or.inl (b := False) hread)
  have hscopes := Context.scopes_declareGlobals ⟨registry, [], [], [[]], false⟩
    (analyze source registry).1.body
  have hagrees : Context.Agrees (fun _ => none) (Context.declareGlobals
      ⟨registry, [], [], [[]], false⟩ (analyze source registry).1.body).2 := by
    refine ⟨by rw [hscopes]; exact List.cons_ne_nil _ _, fun x => ?_, fun _ _ hty => nomatch hty⟩
    rw [Context.declares, hscopes]
    rfl
  exact ⟨⟨Γ, hbuilt⟩, hbuilt.sound hagrees (Report.append_clean.mp hcheck).2⟩

/-- **No silent failure**: in a source without errors every statement could be read, every operator
is resolved, every expression has a type and every condition is one. -/
theorem analyze_resolved (source : String) (registry : Registry)
    (h : (analyze source registry).2.hasErrors = false) {t : Stmt}
    (ht : (analyze source registry).1.Contains t) :
    t.resolved = true ∧
      ∀ e ∈ t.operands, ∀ p : Expr, p.Part e → p.isError = false ∧ p.resolved = true := by
  obtain ⟨u, hu, hpart⟩ := ht
  exact (analyze_built h).2 u hu t hpart

/-- A source in which a constant hides a variable, with a loop on the variable behind it. -/
def loopBehindShadow : String :=
  "var x = 1\n\x7b let x = true\n if (x) \x7b say \"hi\" \x7d \x7d\n" ++
    "while (x < 3 && !(x == 2)) \x7b x += 1 \x7d\n"

theorem analyze_resolved_loopBehindShadow :
    (analyze loopBehindShadow {}).2.hasErrors = false ∧
      ∃ h : 2 < (analyze loopBehindShadow {}).1.body.length,
        ((analyze loopBehindShadow {}).1.body.get ⟨2, h⟩).resolved = true ∧
          ∀ e ∈ ((analyze loopBehindShadow {}).1.body.get ⟨2, h⟩).operands, ∀ p : Expr, p.Part e →
            p.isError = false ∧ p.resolved = true := by
  have hclean : (analyze loopBehindShadow {}).2.hasErrors = false := by decide +kernel
  have hlength : 2 < (analyze loopBehindShadow {}).1.body.length := by decide +kernel
  refine ⟨hclean, hlength, analyze_resolved loopBehindShadow {} hclean ?_⟩
  exact ⟨_, List.get_mem _ _, .self⟩

end Packwright
