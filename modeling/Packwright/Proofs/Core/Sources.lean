import Packwright.Proofs.Core.Finish
import Packwright.Proofs.Core.Kinds
import Packwright.Proofs.Parsing.Identifiers

/-!
# Sources of the core

A source of the core without diagnostics becomes a pack that does what the interpreter does.
Reading and checking give trees of the core, generation gives lines that realize them, and the
finished pack runs these lines.

* `Stored.operand`, `Stored.update`: values are stored by the operators that the core asks for.
* `Stmt.Built.tree`: statements without errors that have the shape of the core are trees of it.
* `compile_core`: the finished pack and the interpreter agree.
-/

namespace Packwright

open Gen Run Words Packwright.Core

namespace TypeEnv

theorem names_declare (Γ : TypeEnv) (x : String) (ty : Ty) :
    (Γ.declare x ty).names = insert x Γ.names := by
  ext y
  rw [mem_names, Set.mem_insert_iff, mem_names]
  by_cases hy : y = x
  · subst hy
    simp [declare]
  · simp [declare, hy]

theorem Scores.declare {Γ : TypeEnv} (h : Γ.Scores) (x : String) :
    (Γ.declare x (.plain .score)).Scores := by
  intro y ty hy
  by_cases hyx : y = x
  · subst hyx
    rw [TypeEnv.declare, Function.update_self] at hy
    exact (Option.some.inj hy).symm
  · rw [TypeEnv.declare, Function.update_of_ne hyx] at hy
    exact h y ty hy

end TypeEnv

/-! ## Values -/

section Values

variable {Γ : TypeEnv} {e : Expr} {o : Option Operation}

theorem resolve_store {k : Kind} (hk : k = .int ∨ k = .score ∨ k = .bool ∨ k = .condition)
    {o : Operation} {c c' : Option Cast}
    (h : resolveBinary? .score .assign k = some ⟨o, c', c⟩) : o.rule = .store ∧ c = none := by
  rcases hk with rfl | rfl | rfl | rfl <;> cases h <;> exact ⟨rfl, rfl⟩

theorem resolve_update {op : Arith} {k : Kind} (hk : k = .int ∨ k = .score) {o : Operation}
    {c c' : Option Cast} (h : resolveBinary? .score (.update op) k = some ⟨o, c', c⟩) :
    o.rule = .modify op ∧ c = none := by
  rcases hk with rfl | rfl <;> cases op <;> cases h <;> exact ⟨rfl, rfl⟩

theorem Expr.operand?_casted (e : Expr) (c : Option Cast) : (e.casted c).operand? = e.operand? := by
  rw [operand?, operand?, number?_casted, truth?_casted]

/-- A value of the core is stored as it is. -/
theorem Stored.operand (h : Stored False Γ .assign e o) (hΓ : Γ.Scores) (hsound : e.Sound)
    {t : Operand} (ht : e.operand? = some t) :
    ∃ o', o = some o' ∧ o'.rule = .store ∧ OperandTree Γ.names e t := by
  cases h with
  | @resolved e' o' c he hres =>
    have hsorted := he.sorted rfl hΓ hsound.of_casted
    rw [Expr.operand?_casted] at ht
    rcases Option.or_eq_some_iff.mp ht with hnumber | ⟨hnone, htruth⟩
    · obtain ⟨a, ha, rfl⟩ := Option.map_eq_some_iff.mp hnumber
      obtain ⟨hk, htree⟩ := hsorted.number a ha
      obtain ⟨hrule, rfl⟩ := resolve_store (hk.imp_right Or.inl) hres
      exact ⟨o', rfl, hrule, .number htree⟩
    · obtain ⟨b, hb, rfl⟩ := Option.map_eq_some_iff.mp htruth
      rcases hsorted.truth b hb with ⟨hk, htree⟩ | ⟨i, x, rfl, -, -⟩
      · obtain ⟨hrule, rfl⟩ := resolve_store (Or.inr (Or.inr hk)) hres
        exact ⟨o', rfl, hrule, .truth htree⟩
      · -- a variable is a number already
        cases hnone
  | failed he h =>
    rcases h with h | h
    · rw [(hsound e .self).1] at h
      cases h
    · exact h.elim

/-- A number is added to a variable as it is, and so for the other operators. -/
theorem Stored.update {op : Arith} (h : Stored False Γ (.update op) e o) (hΓ : Γ.Scores)
    (hsound : e.Sound) {a : Number} (ha : e.number? = some a) :
    ∃ o' k, o = some o' ∧ o'.rule = .modify op ∧ NumberTree Γ.names e a k := by
  cases h with
  | @resolved e' o' c he hres =>
    have hsorted := he.sorted rfl hΓ hsound.of_casted
    rw [Expr.number?_casted] at ha
    obtain ⟨hk, htree⟩ := hsorted.number a ha
    obtain ⟨hrule, rfl⟩ := resolve_update hk hres
    exact ⟨o', _, rfl, hrule, htree⟩
  | failed he h =>
    rcases h with h | h
    · rw [(hsound e .self).1] at h
      cases h
    · exact h.elim

/-- The target of an assignment is a variable. -/
theorem mem_names_of_target {i : Info} {x : String} (h : (Expr.name i x).Built False Γ false)
    (hsound : (Expr.name i x).Sound) : x ∈ Γ.names := by
  cases h with
  | name hx => rw [TypeEnv.mem_names, hx]; rfl
  | unknown hx hty => exact absurd hty hsound.ty_ne
  | failed _ _ h => exact h.elim

/-- The condition of a statement is a tree of the core. -/
theorem Expr.Built.truthTree (he : e.Built False Γ false) (hΓ : Γ.Scores)
    (hsound : (Parse.asCondition e).Sound) {t : Truth}
    (ht : (Parse.asCondition e).truth? = some t) :
    TruthTree Γ.names (Parse.asCondition e) t .condition := by
  have hsound' : e.Sound := by
    unfold Parse.asCondition at hsound
    split at hsound
    · exact hsound
    · exact hsound.of_casted
  exact (he.sorted rfl hΓ hsound').asCondition (hsound' e .self).1 ht

end Values

/-! ## Statements -/

theorem Stmt.Sound.operand {t : Stmt} (h : t.Sound) : ∀ e ∈ t.operands, e.Sound := (h t .self).2

theorem Stmt.Sound.child {t u : Stmt} (h : t.Sound) (hu : u ∈ t.children) : u.Sound :=
  fun v hv => h v (.child hu hv)

/-- Assignments of the core. -/
theorem Stored.assignTree {Γ : TypeEnv} {span : Span} {target e : Expr} {op : BinaryOp}
    {o : Option Operation} (he : Stored False Γ op e o) (htarget : target.Built False Γ false)
    (hΓ : Γ.Scores) (hsound : (Stmt.assign span target op e o).Sound) {t : Statement}
    (ht : (Stmt.assign span target op e o).core? = some t) :
    StmtTree Γ.names (.assign span target op e o) t Γ.names := by
  obtain ⟨htargetSound, heSound⟩ := List.forall_mem_cons.mp hsound.operand
  have heSound := List.forall_mem_singleton.mp heSound
  cases target with
  | name i x =>
    have hx := mem_names_of_target htarget htargetSound
    cases op with
    | assign =>
      rw [Stmt.core?] at ht
      obtain ⟨operand, hoperand, rfl⟩ := Option.map_eq_some_iff.mp ht
      obtain ⟨o', rfl, hrule, htree⟩ := he.operand hΓ heSound hoperand
      exact .assign hx htree hrule
    | update op =>
      rw [Stmt.core?] at ht
      obtain ⟨a, ha, rfl⟩ := Option.map_eq_some_iff.mp ht
      obtain ⟨o', k, rfl, hrule, htree⟩ := he.update hΓ heSound ha
      exact .update hx htree hrule
    | _ => cases ht
  | _ => cases ht

/-- What is said in the core is a plain word. -/
theorem Command.sayTree {V : Set String} {span : Span} {command : Command} {t : Statement}
    (ht : (Stmt.command span command).core? = some t) : StmtTree V (.command span command) t V := by
  cases command with
  | say e =>
    cases e with
    | literal i v =>
      cases v with
      | string text =>
        rw [Stmt.core?] at ht
        split at ht
        · rename_i hplain
          cases ht
          exact .say hplain
        · cases ht
      | _ => cases ht
    | _ => cases ht
  | _ => cases ht

mutual

/-- **Statements** without errors that have the shape of the core are trees of the core. -/
theorem Stmt.Built.tree {N : String → Prop} (hN : ∀ x, N x → isIdentifier x = true) :
    ∀ {Γ Γ' : TypeEnv} {s : Stmt} {t : Statement},
    s.Built False N Γ Γ' → Γ.Scores → s.Sound → s.core? = some t →
      StmtTree Γ.names s t Γ'.names ∧ Γ'.Scores
  | _, _, _, t, @Stmt.Built.var _ _ Γ span x e o hx he, hΓ, hsound, ht => by
    rw [Stmt.core?] at ht
    obtain ⟨operand, hoperand, rfl⟩ := Option.map_eq_some_iff.mp ht
    obtain ⟨o', rfl, hrule, htree⟩ := he.operand hΓ (hsound.operand e List.mem_cons_self) hoperand
    have hname : ∀ c ∈ x.name.toList, isInner c = true := fun c hc =>
      isInner_of_isNamePart (isNamePart_of_isIdentifier (hN _ hx) c hc)
    rw [TypeEnv.names_declare]
    exact ⟨.declare hname htree hrule, hΓ.declare x.name⟩
  | _, _, _, t, .assign htarget hkind he, hΓ, hsound, ht => ⟨he.assignTree htarget hΓ hsound ht, hΓ⟩
  | _, _, _, t, .misassign htarget hkind he, hΓ, hsound, ht => nomatch (hsound _ .self).1
  | _, _, _, t, .block hbody, hΓ, hsound, ht => by
    rw [Stmt.core?] at ht
    obtain ⟨ts, hts, rfl⟩ := Option.map_eq_some_iff.mp ht
    exact ⟨.block (hbody.trees hN hΓ (fun u hu => hsound.child hu) hts), hΓ⟩
  | _, _, _, t, .ifThen he hthen, hΓ, hsound, ht => by
    rw [Stmt.core?] at ht
    obtain ⟨c, hc, ht⟩ := Option.bind_eq_some_iff.mp ht
    obtain ⟨t₁, ht₁, ht⟩ := Option.bind_eq_some_iff.mp ht
    cases ht
    have hcondition := he.truthTree hΓ (hsound.operand _ List.mem_cons_self) hc
    obtain ⟨htree, -⟩ := hthen.tree hN hΓ (hsound.child List.mem_cons_self) ht₁
    exact ⟨.ifThen hcondition htree, hΓ⟩
  | _, _, _, t, .ifElse he hthen helse, hΓ, hsound, ht => by
    rw [Stmt.core?] at ht
    obtain ⟨c, hc, ht⟩ := Option.bind_eq_some_iff.mp ht
    obtain ⟨t₁, ht₁, ht⟩ := Option.bind_eq_some_iff.mp ht
    obtain ⟨t₂, ht₂, ht⟩ := Option.bind_eq_some_iff.mp ht
    cases ht
    have hcondition := he.truthTree hΓ (hsound.operand _ List.mem_cons_self) hc
    obtain ⟨htree, -⟩ := hthen.tree hN hΓ (hsound.child List.mem_cons_self) ht₁
    obtain ⟨htree', -⟩ := helse.tree hN hΓ (hsound.child (by simp [Stmt.children])) ht₂
    exact ⟨.ifElse hcondition htree htree', hΓ⟩
  | _, _, _, t, .while he hbody, hΓ, hsound, ht => by
    rw [Stmt.core?] at ht
    obtain ⟨c, hc, ht⟩ := Option.bind_eq_some_iff.mp ht
    obtain ⟨t₁, ht₁, ht⟩ := Option.bind_eq_some_iff.mp ht
    cases ht
    have hcondition := he.truthTree hΓ (hsound.operand _ List.mem_cons_self) hc
    obtain ⟨htree, -⟩ := hbody.tree hN hΓ (hsound.child List.mem_cons_self) ht₁
    exact ⟨.while hcondition htree, hΓ⟩
  | _, _, _, t, .command h, hΓ, hsound, ht => ⟨Command.sayTree ht, hΓ⟩
  | _, _, _, t, .letPlain _ _, _, _, ht | _, _, _, t, .letTyped _ _ _ _, _, _, ht
  | _, _, _, t, .varPlain _, _, _, ht | _, _, _, t, .expr _, _, _, ht
  | _, _, _, t, .function _ _, _, _, ht | _, _, _, t, .enum, _, _, ht
  | _, _, _, t, .context _ _, _, _, ht | _, _, _, t, .return, _, _, ht => nomatch ht
  | _, _, _, t, .error h, _, _, _ => h.elim

theorem BodyBuilt.trees {N : String → Prop} (hN : ∀ x, N x → isIdentifier x = true) :
    ∀ {Γ Γ' : TypeEnv} {ss : List Stmt} {ts : List Statement},
    BodyBuilt False N Γ ss Γ' → Γ.Scores → (∀ s ∈ ss, s.Sound) →
      coreAll? ss = some ts → StmtTrees Γ.names ss ts Γ'.names
  | _, _, _, _, .nil, hΓ, _, hts => by
    rw [coreAll?] at hts
    cases hts
    exact .nil _
  | _, _, _, _, .cons h hrest, hΓ, hsound, hts => by
    rw [coreAll?] at hts
    obtain ⟨t, ht, hts⟩ := Option.bind_eq_some_iff.mp hts
    obtain ⟨ts, hts', hts⟩ := Option.bind_eq_some_iff.mp hts
    cases hts
    obtain ⟨hs, hss⟩ := List.forall_mem_cons.mp hsound
    obtain ⟨htree, hΓ'⟩ := h.tree hN hΓ hs ht
    exact .cons htree (hrest.trees hN hΓ' hss hts')

end

/-! ## Packs -/

/-- The draft behind the statements of a script, with its names still in scope. -/
def Script.drafted (script : Script) (o : Options) : Draft :=
  ((generateAll script.body).run (Draft.empty o).pushScope).2

theorem Draft.neat_empty {o : Options} (h : o.Plain) : (Draft.empty o).Neat := by
  have hempty : ∀ s, s ∉ scoresOf (Draft.empty o).scopes := by
    intro s hs
    rcases mem_scoresOf_cons.mp hs with ⟨x, hx⟩ | ⟨scope, hscope, -⟩
    · cases hx
    · cases hscope
  refine ⟨h, List.cons_ne_nil _ _, ⟨?_, ?_, trivial⟩, fun s hs => absurd hs (hempty s)⟩
  · intro x y s hx
    cases hx
  · intro x s hx
    cases hx

/-- Before the first line of a script, nothing has a value and nothing was said. -/
theorem Draft.reflects_empty (o : Options) :
    (Draft.empty o).pushScope.Reflects ({} : World).counted ({} : State).enter :=
  ⟨⟨fun _ => Or.inl ⟨rfl, rfl⟩, fun _ => Or.inl ⟨rfl, rfl⟩, trivial⟩, rfl⟩

/-- **Correctness on the core**: if the load lists of the finished pack of a core source run without
a fault, then the interpreter comes to an end, has said the same lines, and has the values that the
scores of the variables hold. -/
theorem compile_core {source : String} {o : Options} {registry : Registry} {ts : List Statement}
    {faults : List (Option Fault)} {w : World}
    (hclean : (compile source o registry).2.diagnostics = [])
    (hcore : coreAll? (analyze source registry).1.body = some ts) (hsafe : safeAll ts = true)
    (hplain : o.Plain) (ho : o.MainApart)
    (hrun : (compile source o registry).1.program.runAll {}
      ((compile source o registry).1.tagged .load) = (faults, w))
    (hok : ∀ f ∈ faults, f = none) :
    ∃ τ : State, RunsAll ts ({} : State).enter τ ∧ w.output = τ.said ∧
      ∀ x, (((analyze source registry).1.drafted o).lookup? x = none ∧ τ.lookup? x = none) ∨
        ∃ s n, ((analyze source registry).1.drafted o).lookup? x = some (.score s) ∧
          τ.lookup? x = some n ∧ w.score? s = some n := by
  have herrors : (analyze source registry).2.hasErrors = false := by
    have hfront : (analyze source registry).2.diagnostics = [] :=
      (List.append_eq_nil_iff.mp hclean).1
    rw [Report.hasErrors, hfront]
    rfl
  obtain ⟨⟨Γ, hbuilt⟩, hsound⟩ := analyze_built herrors
  have htrees := hbuilt.trees (fun _ => isIdentifier_of_named) (fun _ _ hty => by cases hty)
    hsound hcore
  obtain ⟨lines, d, hgen, hg, -, hreal⟩ := htrees.generates hsafe (Draft.empty o).pushScope
    (Draft.neat_empty hplain).pushScope fun x hx => by cases hx
  obtain rfl : (analyze source registry).1.drafted o = d := congrArg Prod.snd hgen
  obtain ⟨depth, f, hseq⟩ := Draft.runAll_finish hg hplain ho hreal.tidy hrun hok
  obtain ⟨-, -, τ, hτ, hw⟩ := hreal.runs _ (Draft.holds_assembled hg ho) depth _ f w _
    (Draft.reflects_empty o) hseq
  exact ⟨τ, hτ, hw.said, hw.values.cases⟩

/-- A loop whose body hides one of the variables of its condition. -/
def hidingLoop : String :=
  "var x = 1\nvar n = 0\nwhile (x > n) \x7b\n var n = x\n x -= n\n say \"once\"\n\x7d\n"

/-- What the load lists of the pack of the loop do to a fresh world. -/
def hidingLoopRun : List (Option Fault) × World :=
  (compile hidingLoop {} {}).1.program.runAll {} ((compile hidingLoop {} {}).1.tagged .load)

/-- The amount that a world has for a variable of a draft. -/
def Draft.amount? (d : Draft) (w : World) (x : String) : Option Amount :=
  match d.lookup? x with
  | some (.score s) => w.score? s
  | _ => none

theorem hidingLoop_facts : (compile hidingLoop {} {}).2.diagnostics = [] ∧
    (coreAll? (analyze hidingLoop {}).1.body).map safeAll = some true ∧
    (∀ f ∈ hidingLoopRun.1, f = none) ∧ hidingLoopRun.2.output = #["say once"] ∧
    ((analyze hidingLoop {}).1.drafted {}).amount? hidingLoopRun.2 "x" = some 0 ∧
    ((analyze hidingLoop {}).1.drafted {}).amount? hidingLoopRun.2 "n" = some 0 := by
  decide +kernel

theorem compile_core_hidingLoop :
    ∃ ts τ, coreAll? (analyze hidingLoop {}).1.body = some ts ∧ RunsAll ts ({} : State).enter τ ∧
      τ.said = #["say once"] ∧ τ.lookup? "x" = some 0 ∧ τ.lookup? "n" = some 0 := by
  obtain ⟨hclean, hcore, hok, hsaid, hx, hn⟩ := hidingLoop_facts
  obtain ⟨ts, hts, hsafe⟩ := Option.map_eq_some_iff.mp hcore
  obtain ⟨τ, hruns, hsame, hvalues⟩ := compile_core (w := hidingLoopRun.2) hclean hts hsafe
    Options.plain_default (by decide) rfl hok
  have hvalue : ∀ {x : String} {n : Amount},
      ((analyze hidingLoop {}).1.drafted {}).amount? hidingLoopRun.2 x = some n →
        τ.lookup? x = some n := by
    intro x n hamount
    rw [Draft.amount?] at hamount
    rcases hvalues x with ⟨hnone, -⟩ | ⟨s, m, hscore, hlookup, hm⟩
    · rw [hnone] at hamount
      cases hamount
    · rw [hscore] at hamount
      rw [hlookup, ← hm]
      exact hamount
  exact ⟨ts, τ, hts, hruns, hsame.symm.trans hsaid, hvalue hx, hvalue hn⟩

end Packwright
