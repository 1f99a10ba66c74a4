import Packwright.Proofs.Parsing.Checked
import Packwright.Proofs.Scopes

/-!
# What a name stands for

Reading gives a name the type of its innermost declaration.  Generation binds a name only if the
declaration has a value; where it has none, a name stands for what an outer declaration bound.

* `Stmt.declares`, `declarations`: the declarations that generation comes past.
* `Stmt.Comes p d' V' t d V`: generation of the statement `t` from the draft `d` comes to the
  expression `p` with the draft `d'`, where the declarations `V'` are visible.
* `Stmt.Comes.shows`, `Stmt.Comes.built`: what the draft and the types of reading say of the visible
  declarations.
* `lookup?_visible`: names in a source without errors.
-/

namespace Packwright

open Gen

/-! ## Visible declarations -/

/-- A declaration that generation came past, with the kind that reading gave it and the value to
which it was bound, if it had one. -/
structure Declaration where
  name : String
  kind : Kind
  value : Option Value

namespace Declaration

/-- The value of a name: that of the first of its declarations that has one. -/
def value? (x : String) : List Declaration → Option Value
  | [] => none
  | D :: V => if D.name = x then D.value.or (value? x V) else value? x V

/-- The kind of a name: that of the first of its declarations. -/
def kind? (x : String) (V : List Declaration) : Option Kind :=
  (V.find? (·.name = x)).map kind

theorem value?_append_of_ne {x : String} {before : List Declaration}
    (h : ∀ D ∈ before, D.name ≠ x) (V : List Declaration) :
    value? x (before ++ V) = value? x V := by
  induction before with
  | nil => rfl
  | cons D before ih =>
    rw [List.cons_append, value?, if_neg (h D List.mem_cons_self)]
    exact ih fun D' hD' => h D' (List.mem_cons_of_mem _ hD')

theorem exists_of_kind? {x : String} {V : List Declaration} {k : Kind} (h : kind? x V = some k) :
    ∃ before D after, V = before ++ D :: after ∧ (∀ D' ∈ before, D'.name ≠ x) ∧ D.name = x ∧
      D.kind = k := by
  obtain ⟨D, hD, rfl⟩ := Option.map_eq_some_iff.mp h
  obtain ⟨hname, before, after, hV, hbefore⟩ := List.find?_eq_some_iff_append.mp hD
  exact ⟨before, D, after, hV, fun D' hD' => by simpa using hbefore D' hD',
    of_decide_eq_true hname, rfl⟩

end Declaration

/-- What a statement declares where it stands, when it is generated from a draft. -/
def Stmt.declares (d : Draft) : Stmt → List Declaration
  | letBinding _ x e => [⟨x.name, e.kind, (e.generate.run.run d).1⟩]
  | var _ x none _ => [⟨x.name, .score, some (.score ((newVariable x.name).run d).1)⟩]
  | var _ x (some e) _ =>
    [⟨x.name, .score, some (.score ((newVariable x.name).run (e.generate.run.run d).2).1)⟩]
  | _ => []

/-- What several statements declare, the last one first. -/
def declarations (d : Draft) : List Stmt → List Declaration
  | [] => []
  | t :: ts => declarations (t.generate.run d).2 ts ++ t.declares d

namespace Stmt

/-- The lists of statements in a statement, each of which has a scope of its own. -/
def bodies : Stmt → List (List Stmt)
  | block _ body | function _ _ _ body => [body]
  | ifElse _ _ t u => [t] :: u.toList.map fun u => [u]
  | .while _ _ t | context _ _ _ t => [[t]]
  | letBinding _ _ _ | var _ _ _ _ | assign _ _ _ _ _ | expr _ _ | enum _ _ _ | command _ _
  | .return _ | error _ => []

/-- Generation of a statement from a draft, where the declarations `V` are visible, comes to the
expression `p` with the draft `d'`, where the declarations `V'` are visible.  What is generated of
the statement before changes no scope. -/
inductive Comes (p : Expr) (d' : Draft) (V' : List Declaration) :
    Stmt → Draft → List Declaration → Prop
  | operand {t : Stmt} {e : Expr} {d d₁ : Draft} (he : e ∈ t.operands)
    (hd : d₁.scopes = d.scopes) (h : p.Meets d' e d₁) : Comes p d' V' t d V'
  | inner {t u : Stmt} {before after : List Stmt} {d d₁ : Draft} {V : List Declaration}
    (hbody : before ++ u :: after ∈ t.bodies) (hd : d₁.scopes = [] :: d.scopes)
    (h : Comes p d' V' u ((generateAll before).run d₁).2 (declarations d₁ before ++ V)) :
    Comes p d' V' t d V

end Stmt

/-! ## Values -/

/-- The draft has the values of the visible declarations. -/
structure Draft.Shows (d : Draft) (V : List Declaration) : Prop where
  opened : d.scopes ≠ []
  lookup : ∀ x, d.lookup? x = Declaration.value? x V

namespace Draft.Shows

variable {d d₁ : Draft} {V : List Declaration}

theorem of_scopes (h : d.Shows V) (hd : d₁.scopes = d.scopes) : d₁.Shows V :=
  ⟨hd ▸ h.opened, fun x => by rw [Draft.lookup?, hd]; exact h.lookup x⟩

theorem enter (h : d.Shows V) (hd : d₁.scopes = [] :: d.scopes) : d₁.Shows V :=
  ⟨hd ▸ List.cons_ne_nil _ _, fun x => by rw [Draft.lookup?, hd]; exact h.lookup x⟩

theorem bind (h : d.Shows V) (x : String) (k : Kind) (v : Value) :
    (d.bind x v).Shows (⟨x, k, some v⟩ :: V) := by
  refine ⟨?_, fun y => ?_⟩
  · obtain ⟨scope, outer, hscopes⟩ := List.exists_cons_of_ne_nil h.opened
    simp [Draft.bind, hscopes]
  · rw [Draft.lookup?_bind h.opened, Declaration.value?, h.lookup]
    rfl

theorem skip (h : d.Shows V) (x : String) (k : Kind) : d.Shows (⟨x, k, none⟩ :: V) := by
  refine ⟨h.opened, fun y => ?_⟩
  rw [h.lookup, Declaration.value?]
  simp

theorem declaration (h : d.Shows V) (x : String) (initial : Option Value)
    (operation : Option Operation) :
    ((do
      let score ← newVariable x
      match initial, operation with
      | some v, some o => discard (o.rule.apply (.score score) v).run
      | _, _ => Pure.pure ()
      Gen.bind x (.score score) : Gen Unit).run d).2.Shows
        (⟨x, .score, some (.score ((newVariable x).run d).1)⟩ :: V) := by
  have hnew := h.of_scopes ((Silent.newVariable x).scopes d)
  rw [run_bind]
  cases initial with
  | none => exact hnew.bind x .score _
  | some v =>
    cases operation with
    | none => exact hnew.bind x .score _
    | some o =>
      have happly := Keeps.writes.binary o.rule (.score ((newVariable x).run d).1) v
        ((newVariable x).run d).2
      exact (hnew.of_scopes happly).bind x .score _

/-- **Statements**: behind a statement the draft has the values of what it declares, too. -/
theorem statement (h : d.Shows V) (t : Stmt) : (t.generate.run d).2.Shows (t.declares d ++ V) := by
  cases t with
  | letBinding span x e =>
    have hvalue := h.of_scopes (Keeps.writes.generate e d)
    rw [Stmt.generate, run_bind, Stmt.declares]
    cases (e.generate.run.run d).1 with
    | none => exact hvalue.skip x.name e.kind
    | some v => exact hvalue.bind x.name e.kind v
  | var span x initial operation =>
    cases initial with
    | none => exact h.declaration x.name none operation
    | some e =>
      have hvalue := h.of_scopes (Keeps.writes.generate e d)
      exact hvalue.declaration x.name (e.generate.run.run d).1 operation
  | _ => exact h.of_scopes (Stmt.keeps_generate rfl d)

theorem body (h : d.Shows V) (ts : List Stmt) :
    ((generateAll ts).run d).2.Shows (declarations d ts ++ V) := by
  induction ts generalizing d V with
  | nil => exact h
  | cons t ts ih =>
    rw [generateAll, run_bind, declarations, List.append_assoc]
    exact ih (h.statement t)

end Draft.Shows

/-- **Values**: wherever generation comes to, the draft has the values of the visible
declarations. -/
theorem Stmt.Comes.shows {p : Expr} {t : Stmt} {d d' : Draft} {V V' : List Declaration}
    (h : t.Comes p d' V' d V) (hd : d.Shows V) : d'.Shows V' := by
  induction h with
  | operand _ hscopes hmeets => exact hd.of_scopes (hmeets.scopes_eq.trans hscopes)
  | @inner t u before after d d₁ V _ hscopes _ ih => exact ih ((hd.enter hscopes).body before)

/-! ## Kinds -/

/-- The names that reading has in scope are those of the visible declarations, with their kinds. -/
def TypeEnv.Mirrors (Γ : TypeEnv) (V : List Declaration) : Prop :=
  ∀ x, (Γ x).map Ty.kind = Declaration.kind? x V

namespace TypeEnv.Mirrors

variable {N : String → Prop} {Γ Γ' : TypeEnv} {d : Draft} {V : List Declaration}

theorem declare (h : Γ.Mirrors V) (x : String) {ty : Ty} {k : Kind} (hk : k = ty.kind)
    (value : Option Value) : (Γ.declare x ty).Mirrors (⟨x, k, value⟩ :: V) := by
  intro y
  rw [Declaration.kind?, List.find?_cons]
  by_cases hxy : x = y
  · subst hxy
    simp [TypeEnv.declare, hk]
  · rw [TypeEnv.declare, Function.update_of_ne (Ne.symm hxy)]
    simpa [hxy, Declaration.kind?] using h y

/-- **Statements**: behind a statement reading has the names in scope that it declares, too. -/
theorem statement (h : Γ.Mirrors V) {t : Stmt} (ht : t.Built False N Γ Γ') (hsound : t.Sound)
    (d : Draft) : Γ'.Mirrors (t.declares d ++ V) := by
  cases ht with
  | letPlain _ _ => exact h.declare _ rfl _
  | @letTyped _ span x e ty _ _ _ hkind =>
    have herror : e.isError = false := ((hsound _ .self).2 e List.mem_cons_self e .self).1
    refine h.declare _ ?_ _
    simpa [herror] using hkind
  | varPlain _ | var _ _ => exact h.declare _ rfl _
  | error hfalse => exact hfalse.elim
  | _ => exact h

/-- Where a statement stands behind others, reading has what they declare in scope. -/
theorem body (h : Γ.Mirrors V) {before after : List Stmt} {u : Stmt}
    (hbody : BodyBuilt False N Γ (before ++ u :: after) Γ') (hsound : ∀ t ∈ before, t.Sound)
    (d : Draft) : ∃ Γ₁ Γ₂, u.Built False N Γ₁ Γ₂ ∧ Γ₁.Mirrors (declarations d before ++ V) := by
  induction before generalizing Γ d V with
  | nil =>
    cases hbody with
    | cons hu _ => exact ⟨_, _, hu, h⟩
  | cons t before ih =>
    cases hbody with
    | cons ht hrest =>
      have hhead := h.statement ht (hsound t List.mem_cons_self) d
      rw [declarations, List.append_assoc]
      exact ih hhead hrest (fun t ht => hsound t (List.mem_cons_of_mem _ ht)) _

end TypeEnv.Mirrors

theorem Stmt.Built.body {F : Prop} {N : String → Prop} {Γ Γ' : TypeEnv} {t : Stmt}
    (h : t.Built F N Γ Γ') {body : List Stmt} (hbody : body ∈ t.bodies) :
    ∃ Γ'', BodyBuilt F N Γ body Γ'' := by
  cases h with
  | block h | function _ h =>
    obtain rfl := List.mem_singleton.mp hbody
    exact ⟨_, h⟩
  | ifThen _ ht | «while» _ ht | context _ ht =>
    obtain rfl := List.mem_singleton.mp hbody
    exact ⟨_, .cons ht .nil⟩
  | ifElse _ ht hu =>
    rcases List.mem_pair.mp hbody with rfl | rfl
    · exact ⟨_, .cons ht .nil⟩
    · exact ⟨_, .cons hu .nil⟩
  | letPlain | letTyped | varPlain | var | assign | misassign | expr | enum | command | «return»
  | error => cases hbody

theorem Stmt.mem_children_of_mem_bodies {t u : Stmt} {body : List Stmt} (hbody : body ∈ t.bodies)
    (hu : u ∈ body) : u ∈ t.children := by
  cases t with
  | block | function =>
    obtain rfl := List.mem_singleton.mp hbody
    exact hu
  | «while» | context =>
    obtain rfl := List.mem_singleton.mp hbody
    exact hu
  | ifElse span e t elseBranch =>
    cases elseBranch with
    | none =>
      obtain rfl := List.mem_singleton.mp hbody
      exact hu
    | some elseBranch =>
      rcases List.mem_pair.mp hbody with rfl | rfl
      · exact List.mem_cons.mpr (.inl (List.mem_singleton.mp hu))
      · exact List.mem_cons_of_mem _ hu
  | letBinding | var | assign | expr | enum | command | «return» | error => cases hbody

/-- **Kinds**: wherever generation comes to, reading has the visible declarations in scope. -/
theorem Stmt.Comes.built {N : String → Prop} {p : Expr} {t : Stmt} {d d' : Draft}
    {V V' : List Declaration} (h : t.Comes p d' V' d V) {Γ Γ' : TypeEnv}
    (ht : t.Built False N Γ Γ') (hsound : t.Sound) (hΓ : Γ.Mirrors V) :
    ∃ Γ₁ : TypeEnv, p.Built False Γ₁ true ∧ p.isError = false ∧ Γ₁.Mirrors V' := by
  induction h generalizing Γ Γ' with
  | @operand t e d d₁ he _ hmeets =>
    have herror := ((hsound t .self).2 e he p hmeets.part).1
    exact ⟨Γ, (ht.operand he).part hmeets.part, herror, hΓ⟩
  | @inner t u before after d d₁ V hbody _ _ ih =>
    obtain ⟨Γ₁, hbuilt⟩ := ht.body hbody
    have hchild : ∀ s ∈ before ++ u :: after, s.Sound := fun s hs r hr =>
      hsound r (.child (Stmt.mem_children_of_mem_bodies hbody hs) hr)
    obtain ⟨Γ₂, Γ₃, hu, hmirrors⟩ := hΓ.body hbuilt
      (fun s hs => hchild s (List.mem_append_left _ hs)) d₁
    exact ih hu (hchild u (by simp)) hmirrors

/-! ## Sources -/

theorem Draft.scopes_addSources (registry : Registry) (d : Draft) (sources : List String) :
    (d.addSources registry sources).2.scopes = d.scopes := by
  induction sources generalizing d with
  | nil => rfl
  | cons source sources ih =>
    have hscript : (d.addScript (analyze source registry).1).2.scopes = d.scopes :=
      (Keeps.makes.inScope (Keeps.makes.body _ fun _ _ _ _ _ _ _ => trivial)) d
    exact (ih _).trans hscript

/-- **What a name stands for**: in a source without errors, wherever generation comes to a name, the
name has a visible declaration.  Reading gave the name the kind of the innermost of them.
Generation finds the value of that one if it has a value, and else the value of the next one
outwards that has one. -/
theorem lookup?_visible (source : String) (registry : Registry) (options : Options)
    (earlier : List String) (h : (analyze source registry).2.hasErrors = false) {span : Span}
    {i : Info} {x : String} {d : Draft} {V : List Declaration}
    (hcomes : (Stmt.block span (analyze source registry).1.body).Comes (.name i x) d V
      ((Draft.empty options).addSources registry earlier).2 []) :
    ∃ before D after, V = before ++ D :: after ∧ (∀ D' ∈ before, D'.name ≠ x) ∧ D.name = x ∧
      D.kind = i.ty.kind ∧ d.lookup? x = D.value.or (Declaration.value? x after) := by
  obtain ⟨⟨Γ, hbuilt⟩, hsound⟩ := analyze_built h
  have hscopes := Draft.scopes_addSources registry (.empty options) earlier
  have hstart : ((Draft.empty options).addSources registry earlier).2.Shows [] :=
    Draft.Shows.of_scopes (d := .empty options) ⟨List.cons_ne_nil _ _, fun _ => rfl⟩ hscopes
  have hblock : (Stmt.block span (analyze source registry).1.body).Sound :=
    .intro rfl (fun _ he => nomatch he) hsound
  obtain ⟨Γ₁, hname, herror, hmirrors⟩ := hcomes.built (.block hbuilt) hblock fun _ => rfl
  have hkind : Declaration.kind? x V = some i.ty.kind := by
    rw [← hmirrors x]
    cases hname with
    | name hx => rw [hx]; rfl
    | unknown _ hty =>
      rw [Expr.isError, Expr.info, hty] at herror
      cases herror
    | failed _ _ hfalse => exact hfalse.elim
  obtain ⟨before, D, after, rfl, hbefore, rfl, hD⟩ := Declaration.exists_of_kind? hkind
  refine ⟨before, D, after, rfl, hbefore, rfl, hD, ?_⟩
  rw [(hcomes.shows hstart).lookup, Declaration.value?_append_of_ne hbefore, Declaration.value?,
    if_pos rfl]

/-- A source in which a constant without a value hides one with a value. -/
def passedOver : String := "let x = 5\n\x7b let x = 1 / 0\n say x \x7d\n"

/-- Behind the inner constant, which has no value, the name stands for the outer one. -/
theorem passedOver_facts :
    ∃ n : Fin (analyze passedOver {}).1.body.length,
      ∃ inner ∈ ((analyze passedOver {}).1.body.get n).bodies, ∃ m : Fin inner.length,
        ∃ e ∈ (inner.get m).operands,
          (match e with | .name _ x => x == "x" | _ => false) = true ∧
          let d := (Draft.empty {}).pushScope
          let d₁ := ((generateAll ((analyze passedOver {}).1.body.take n)).run d).2.pushScope
          (match declarations d₁ (inner.take m) with
            | D :: _ => D.name == "x" && D.value.isNone
            | [] => false) = true ∧
          (((generateAll (inner.take m)).run d₁).2.lookup? "x").map Value.render = some "5" := by
  decide +kernel

theorem Stmt.Comes.at {p : Expr} {t : Stmt} {d d' : Draft} {V V' : List Declaration}
    {body : List Stmt} (hbody : body ∈ t.bodies) (n : Fin body.length)
    (h : (body.get n).Comes p d' V' ((generateAll (body.take n)).run d.pushScope).2
      (declarations d.pushScope (body.take n) ++ V)) : t.Comes p d' V' d V := by
  have hsplit : body = body.take n ++ body.get n :: body.drop (n + 1) := by
    rw [List.get_eq_getElem, ← List.drop_eq_getElem_cons n.isLt, List.take_append_drop]
  exact .inner (hsplit ▸ hbody) rfl h

theorem passedOver_comes (span : Span) :
    ∃ (i : Info) (d : Draft) (D : Declaration) (V : List Declaration),
      (Stmt.block span (analyze passedOver {}).1.body).Comes
        (.name i "x") d (D :: V) (.empty {}) [] ∧
        D.name = "x" ∧ D.value = none ∧ (d.lookup? "x").map Value.render = some "5" := by
  obtain ⟨n, inner, hinner, m, e, he, hname, hdeclared, hlookup⟩ := passedOver_facts
  split at hname
  · rename_i i x
    obtain rfl : x = "x" := by simpa using hname
    split at hdeclared
    · rename_i D V hD
      obtain ⟨hx, hnone⟩ := Bool.and_eq_true_iff.mp hdeclared
      refine ⟨i, _, D, V ++ (declarations (Draft.empty {}).pushScope
        ((analyze passedOver {}).1.body.take n) ++ []), ?_, by simpa using hx,
        Option.isNone_iff_eq_none.mp hnone, hlookup⟩
      refine .at (List.mem_singleton.mpr rfl) n (.at hinner m ?_)
      rw [hD]
      exact .operand he rfl .self
    · cases hdeclared
  · cases hname

theorem lookup?_visible_passedOver :
    (analyze passedOver {}).2.hasErrors = false ∧
      ∃ (span : Span) (i : Info) (d : Draft) (V : List Declaration),
        (Stmt.block span (analyze passedOver {}).1.body).Comes (.name i "x") d V
          ((Draft.empty {}).addSources {} []).2 [] ∧
          ∃ before D after, V = before ++ D :: after ∧ (∀ D' ∈ before, D'.name ≠ "x") ∧
            D.name = "x" ∧ D.kind = i.ty.kind ∧
            d.lookup? "x" = D.value.or (Declaration.value? "x" after) := by
  have hclean : (analyze passedOver {}).2.hasErrors = false := by decide +kernel
  obtain ⟨i, d, D, V, hcomes, -⟩ := passedOver_comes ⟨0, 0⟩
  exact ⟨hclean, ⟨0, 0⟩, i, d, D :: V, hcomes,
    lookup?_visible passedOver {} {} [] hclean hcomes⟩

/-- The innermost declaration of a name may be passed over, and nothing is reported. -/
theorem lookup?_passes_over :
    (compile passedOver {} {}).2.diagnostics.isEmpty = true ∧
      ∃ (span : Span) (i : Info) (d : Draft) (D : Declaration) (V : List Declaration),
        (Stmt.block span (analyze passedOver {}).1.body).Comes (.name i "x") d (D :: V)
          (.empty {}) [] ∧
          D.name = "x" ∧ D.value = none ∧ (d.lookup? "x").map Value.render = some "5" :=
  ⟨by decide +kernel, ⟨0, 0⟩, passedOver_comes ⟨0, 0⟩⟩

end Packwright
