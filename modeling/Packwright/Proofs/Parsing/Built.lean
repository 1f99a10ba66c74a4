import Packwright.Proofs.Parsing.Statements

/-!
# Trees that are made are built

What reading makes between two states is built from the types of the names that are in scope in the
first one, and the names in scope in the second one are those that it leaves.

* `Expr.Made.built`, `Stmt.Leaf.built`, `BodyMade.built`: expressions, statements and bodies.
* `parseScript_built`: whole scripts.
-/

namespace Packwright

open Parsing

variable {tokens : List Located} {F : Prop} {s s₁ u u' s' : Parsing}

/-- Faults that are excused behind a passage are excused in front of it. -/
theorem Parsing.Takes.excused (h : s.Takes s') (hF : ¬ s'.Clean → F) : ¬ s.Clean → F :=
  fun hfault => hF fun hclean => hfault (h.clean hclean)

/-- **Expressions** are built from the types of the names in scope. -/
theorem Expr.Made.built {b : Bool} {e : Expr} (h : e.Made tokens b s s') (hF : ¬ s'.Clean → F) :
    e.Built F s.env b := by
  induction h with
  | widen h₀ _ h₁ ih => exact h₀.env ▸ ih (h₁.takes.excused hF)
  | operand _ ih => exact (ih hF).operand
  | cast _ hc ih => exact (ih hF).casted hc
  | literal => exact .ofValue _ _
  | item => exact .ofValue _ _
  | unresolved _ hfault => exact .error (hF hfault) rfl
  | @name b s s' x span hx hspan =>
    cases hx : s.env x with
    | none => exact .unknown hx rfl
    | some ty => exact .name hx
  | variant => exact .variant rfl
  | call => exact .call rfl
  | binary _ _ hop hres ihl ihr => exact .binary (ihl hF) (ihr hF) hop hres rfl
  | failedBinary _ _ hfault ihl ihr =>
    exact .failedBinary (ihl hF) (ihr hF) (hfault.imp_right hF) rfl
  | unary _ _ hres ih => exact .unary (ih hF) hres rfl
  | failedUnary _ _ hfault ih => exact .failedUnary (ih hF) (hfault.imp_right hF) rfl
  | range _ _ _ _ hkinds ihmin ihmax =>
    exact .range (fun e he => ihmin e he hF) (fun e he => ihmax e he hF) hkinds rfl
  | failedRange _ _ _ _ hfault ihmin ihmax =>
    exact .failedRange (fun e he => ihmin e he hF) (fun e he => ihmax e he hF)
      (hfault.imp_right hF) rfl
  | @list b s s₁ s' ty items h hitems h' hty hkinds ih =>
    have hinner := ((takes_advance s₁).trans h'.takes).excused hF
    exact .list (fun e he => env_of_scopes s.scopes_advance ▸ ih e he hinner) hty
  | @compound b s s₁ entries h hentries ih =>
    have hinner := (takes_advance s₁).excused hF
    exact .compound (fun e he => env_of_scopes s.scopes_advance ▸ ih e he hinner) rfl
  | @parenthesized b s s₁ e h he ih =>
    have hinner := (takes_advance s₁).excused hF
    exact .moved (env_of_scopes s.scopes_advance ▸ ih hinner) _
  | extended _ h ih => exact .moved (ih ((Lies.last h).moves.takes.excused hF)) _
  | failed _ h hfault ih =>
    exact .failed (ih ((Lies.last h).moves.takes.excused hF)) rfl (hF hfault) rfl
  | @member b s s₁ s' e x m args he h hx hm hargs ih iha =>
    have henv : s₁.advance.env = s.env :=
      (env_of_scopes s₁.scopes_advance).trans he.moves.env
    refine .member (ih ((Lies.last h).moves.takes.excused hF)) hm (fun a ha => ?_) rfl
    exact henv ▸ iha a ha hF
  | dataPath _ h hkind _ ih =>
    exact .dataPath (ih ((Lies.last h).moves.takes.excused hF)) hkind rfl

theorem Storing.stored {op : BinaryOp} {e : Expr} {o : Option Operation}
    (h : Storing tokens op s s' e o) (hF : ¬ s'.Clean → F) : Stored F s.env op e o := by
  cases h with
  | resolved he hres => exact .resolved (he.built hF) hres
  | failed he hfault => exact .failed (he.built hF) (hfault.imp_right hF)

/-- **Statements with no others inside** declare their names behind them. -/
theorem Stmt.Leaf.built {t : Stmt} (h : t.Leaf tokens s s') (hs : s.scopes ≠ [])
    (hF : ¬ s'.Clean → F) : t.Built F (Named tokens) s.env s'.env := by
  -- where a name is declared, the names in scope are those in front of the statement
  have hdeclare : ∀ {s' : Parsing} {x : String} {ty : Ty}, s.advance.Moves tokens s' →
      (s'.declare x ty).env = s.env.declare x ty := by
    intro s' x ty hmoves
    have hscopes := (hmoves.scopes id).trans s.scopes_advance
    rw [env_declare (hscopes ▸ hs), env_of_scopes hscopes]
  have henv := env_of_scopes s.scopes_advance
  cases h with
  | letPlain hplain hx he =>
    rw [hdeclare he.moves]
    exact .letPlain hx.named (henv ▸ he.built ((takes_declare _ _ _).excused hF))
  | letTyped hplain hx he hty hkind =>
    rw [hdeclare he.moves]
    have hexcused := (takes_declare _ _ _).excused hF
    exact .letTyped hx.named (henv ▸ he.built hexcused) hty (hkind.imp_right hexcused)
  | varPlain hplain hx hmoves =>
    rw [hdeclare hmoves]
    exact .varPlain hx.named
  | var hplain hx he =>
    rw [hdeclare he.moves]
    exact .var hx.named (henv ▸ he.stored ((takes_declare _ _ _).excused hF))
  | assign htarget hkind he =>
    rw [htarget.moves.env]
    exact .assign (htarget.built hF) hkind (he.stored hF)
  | misassign htarget hkind he =>
    rw [htarget.moves.env]
    exact .misassign (htarget.built hF) hkind (he.built hF)
  | expr he =>
    rw [he.moves.env]
    exact .expr (he.built hF)
  | @enum s₁ s₂ x _ _ _ h hopen h' hclose =>
    have hscopes := ((Passage.enclose hopen h' hclose).scopes id).trans
      ((h.scopes id).trans s.scopes_advance)
    have henum : Parsing.env { s₂.advance with enums := x.name :: s₂.advance.enums } = s.env :=
      env_of_scopes hscopes
    rw [henum]
    exact .enum
  | command hplain hmoves hc =>
    rw [hmoves.env, henv]
    exact .command fun e he => henv ▸ (hc e he).built hF
  | «return» =>
    rw [henv]
    exact .return

theorem Nests.scopes (h : Nests s u u' s') (hu : u.Takes u') : s'.scopes = s.scopes := by
  cases h with
  | same hscopes => exact hscopes
  | scope => exact scopes_leaveScope hu

theorem BodyBuilt.singleton {N : String → Prop} {Γ Γ' : TypeEnv} {t : Stmt}
    (h : t.Built F N Γ Γ') : BodyBuilt F N Γ [t] Γ' :=
  .cons h .nil

/-- A statement inside another, in front of which the state `s` stands, knows the same names. -/
theorem Nests.built {t : Stmt} (h : Nests s₁ u u' s') (hscopes : s₁.scopes = s.scopes)
    (hs : s.scopes ≠ []) (hF : ¬ s'.Clean → F)
    (ht : u.scopes ≠ [] → (¬ u'.Clean → F) → BodyBuilt F (Named tokens) u.env [t] u'.env) :
    ∃ Γ, t.Built F (Named tokens) s.env Γ := by
  have hhead : ∀ {Γ Γ' : TypeEnv}, BodyBuilt F (Named tokens) Γ [t] Γ' →
      ∃ Γ₁, t.Built F (Named tokens) Γ Γ₁ := by
    intro Γ Γ' hbody
    cases hbody with
    | cons ht _ => exact ⟨_, ht⟩
  rw [← env_of_scopes hscopes]
  cases h with
  | same => exact hhead (ht (hscopes ▸ hs) hF)
  | scope => exact hhead (ht (List.cons_ne_nil _ _) hF)

/-- A statement that governs another one: its operand is built, too, and no name is left. -/
theorem Nests.governs {t : Stmt} {b : Bool} {e : Expr} (h : Nests s₁ u u' s')
    (he : e.Made tokens b s.advance s₁) (hu : Passage tokens .block u none u')
    (hs : s.scopes ≠ []) (hF : ¬ s'.Clean → F)
    (ht : u.scopes ≠ [] → (¬ u'.Clean → F) → BodyBuilt F (Named tokens) u.env [t] u'.env) :
    e.Built F s.env b ∧ s'.scopes = s.scopes ∧ ∃ Γ, t.Built F (Named tokens) s.env Γ := by
  have hscopes := (he.moves.scopes id).trans s.scopes_advance
  have hbuilt := he.built ((h.passage hu).takes.excused hF)
  rw [env_of_scopes s.scopes_advance] at hbuilt
  exact ⟨hbuilt, (h.scopes hu.takes).trans hscopes, h.built hscopes hs hF ht⟩

/-- **Bodies**: every statement is built from the names that those in front of it leave in scope. -/
theorem BodyMade.built {n : Bool} {ts : List Stmt} (h : BodyMade tokens n s ts s')
    (hs : s.scopes ≠ []) (hF : ¬ s'.Clean → F) :
    BodyBuilt F (Named tokens) s.env ts s'.env := by
  induction h with
  | moves h =>
    rw [h.env]
    exact .nil
  | append h h' ih ih' =>
    exact (ih hs (h'.takes.excused hF)).append (ih' (h.takes.inside hs) hF)
  | leaf h => exact .singleton (h.built hs hF)
  | @block n s u ts hopen h hclose ih =>
    have hbody := ih (List.cons_ne_nil _ _) ((takes_advance u.leaveScope).excused hF)
    rw [env_of_scopes h.scopes, ← env_of_scopes s.scopes_advance]
    exact .singleton (.block hbody)
  | ifThen hplain he hn ht ih =>
    obtain ⟨hcondition, hscopes, Γ, hthen⟩ := hn.governs he ht.passage hs hF ih
    rw [env_of_scopes hscopes]
    exact .singleton (.ifThen hcondition hthen)
  | @ifElse n s s₁ u u' s₂ s₃ v v' s' e t t' hplain he hn ht helse h hn' ht' ih ih' =>
    have hmore := h.takes.trans (hn'.passage ht'.passage).takes
    have hF₂ := ((takes_advance s₂).trans hmore).excused hF
    obtain ⟨hcondition, hscopes, Γ, hthen⟩ := hn.governs he ht.passage hs hF₂ ih
    have hscopes₃ : s₃.scopes = s.scopes := (h.scopes id).trans (s₂.scopes_advance.trans hscopes)
    obtain ⟨Γ', helse⟩ := hn'.built hscopes₃ hs hF ih'
    rw [env_of_scopes ((hn'.scopes ht'.takes).trans hscopes₃)]
    exact .singleton (.ifElse hcondition hthen helse)
  | «while» hplain he hn ht ih =>
    obtain ⟨hcondition, hscopes, Γ, hbody⟩ := hn.governs he ht.passage hs hF ih
    rw [env_of_scopes hscopes]
    exact .singleton (.while hcondition hbody)
  | context hplain he hn ht ih =>
    obtain ⟨hselector, hscopes, Γ, hbody⟩ := hn.governs he ht.passage hs hF ih
    rw [env_of_scopes hscopes]
    exact .singleton (.context hselector hbody)
  | @function s s₁ u x notes ts hplain hx hnotes h hopen hbody hclose ih =>
    have hscopes := (h.scopes id).trans s.scopes_advance
    have hinner := ih (List.cons_ne_nil _ _) ((takes_advance u.leaveScope).excused hF)
    rw [env_of_scopes (hbody.scopes.trans hscopes),
      ← env_of_scopes (s₁.scopes_advance.trans hscopes)]
    exact .singleton (.function hx.named hinner)
  | @error n s s₁ d hbrace hend h =>
    have hissue := Issue.severity_of_isOrdinary (h.failure d rfl).1
    exact .singleton (.error (hF fun hclean => s₁.not_clean_complain hissue d.span
      ((takes_recover _).clean hclean)))

theorem ScriptMade.built {n : Bool} {ts : List Stmt} (h : ScriptMade tokens n s ts s')
    (hs : s.scopes ≠ []) (hF : ¬ s'.Clean → F) : ∃ Γ, BodyBuilt F (Named tokens) s.env ts Γ := by
  induction h with
  | stop h => exact ⟨_, h.built hs hF⟩
  | @step s s₁ s' ts us h hpeek h' ih =>
    have hcomplain : s₁.Takes (s₁.advance.complain .unmatchedBrace s₁.here) :=
      (takes_advance s₁).trans (takes_complain _ _ _)
    obtain ⟨Γ, hrest⟩ := ih (hcomplain.inside (h.takes.inside hs)) hF
    have henv : (s₁.advance.complain .unmatchedBrace s₁.here).env = s₁.env :=
      env_of_scopes s₁.scopes_advance
    rw [henv] at hrest
    exact ⟨Γ, (h.built hs ((hcomplain.trans h'.takes).excused hF)).append hrest⟩

/-- **Scripts** are built in the empty environment, without fault where nothing is reported. -/
theorem parseScript_built (tokens : List Located) {F : Prop}
    (h : (parseScript tokens).2.hasErrors = false ∨ F) :
    ∃ Γ, BodyBuilt F (Named tokens) (fun _ => none) (parseScript tokens).1.body Γ := by
  obtain ⟨s', hreport, hmade, -⟩ := parseScript_made tokens
  rw [hreport] at h
  exact hmade.built (List.cons_ne_nil _ _) h.resolve_left

end Packwright
