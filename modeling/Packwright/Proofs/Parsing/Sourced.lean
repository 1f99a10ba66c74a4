import Packwright.Proofs.Growth
import Packwright.Proofs.Parsing.Checked

/-!
# Where trees come from

Reading makes up no text: what the nodes of an expression are made of stands in the tokens.
Functions stand at the top of a script only.

* `Value.Sourced`, `Expr.Sourced`, `Stmt.Sourced`: what reading makes of tokens.
* `Expr.Sourced.constant`: the values of expressions made of literals.
* `Expr.Made.sourced`, `BodyMade.sourced`: what is made by reading is made of tokens.
* `parseScript_sourced`: whole scripts.
-/

namespace Packwright

/-! ## Values -/

/-- The value is one that reading makes of tokens.  Where `F` holds, an issue may have been
reported. -/
inductive Value.Sourced (F : Prop) (T : List Located) : Value → Prop
  | integer {w : Width} {n : Nat} {word : Word w} (negative : Bool)
    (ht : (Token.integer w n).Among T)
    (hword : Word.ofInt? w (if negative then -(n : Int) else n) = some word) :
    Sourced F T (.integer w word)
  | float (x : Float32) : Sourced F T (.float x)
  | double (x : Float) : Sourced F T (.double x)
  | string {s : String} (ht : (Token.string s).Among T) : Sourced F T (.string s)
  | bool (b : Bool) : Sourced F T (.bool b)
  | selector {text : String} {s : Selector} (ht : (Token.selector text).Among T)
    (hs : Selector.parse? text = some s) : Sourced F T (.selector s)
  | resource {text : String} (ht : (Token.resource text).Among T) :
    Sourced F T (.resource (.ofText text))
  | item {text : String} {entries : List (String × Value)} (ht : (Token.resource text).Among T)
    (hkeys : (Table.keys entries).Nodup) (hentries : ∀ entry ∈ entries, Sourced F T entry.2) :
    Sourced F T (.item (.ofText text) (some entries))
  | list {items : List Value} (hitems : ∀ v ∈ items, Sourced F T v)
    (hkinds : (∀ v ∈ items, ∀ w ∈ items, v.kind = w.kind) ∨ F) : Sourced F T (.list items)
  | compound {entries : List (String × Value)} (hkeys : (Table.keys entries).Nodup)
    (hentries : ∀ entry ∈ entries, Sourced F T entry.2) : Sourced F T (.compound entries)
  | range {r : Range} (h : r.min.isSome = true ∨ r.max.isSome = true) : Sourced F T (.range r)

/-! ## Expressions -/

namespace Expr

/-- What a node is made of stands among the tokens.  The items of a list are of one kind. -/
def SourcedNode (F : Prop) (T : List Located) : Expr → Prop
  | literal _ v => v.Sourced F T
  | name _ x | member _ _ x _ _ | call _ (.here x) => Named T x
  | dataPath _ _ path => PathText T path
  | variant _ e x => Named T e ∧ Named T x
  | call _ (.elsewhere id) => ∃ text, (Token.resource text).Among T ∧ id = .ofText text
  | list _ es => (∀ e ∈ es, ∀ e' ∈ es, e.kind = e'.kind) ∨ (∃ e ∈ es, e.isError = true) ∨ F
  | range _ l h => l.isSome = true ∨ h.isSome = true
  | binary _ _ _ _ _ | unary _ _ _ _ | cast _ _ _ | compound _ _ | error _ => True

/-- What all nodes of the expression are made of stands among the tokens. -/
def Sourced (F : Prop) (T : List Located) (e : Expr) : Prop :=
  ∀ p : Expr, p.Part e → p.SourcedNode F T

variable {F : Prop} {T : List Located} {e : Expr}

namespace Sourced

theorem intro (hnode : e.SourcedNode F T) (hc : ∀ c ∈ e.children, c.Sourced F T) :
    e.Sourced F T := by
  intro p hp
  cases hp with
  | self => exact hnode
  | child hchild hp => exact hc _ hchild p hp

theorem node (h : e.Sourced F T) : e.SourcedNode F T := h e .self

theorem child (h : e.Sourced F T) {c : Expr} (hc : c ∈ e.children) : c.Sourced F T :=
  fun p hp => h p (.child hc hp)

theorem withInfo (h : e.Sourced F T) (i : Info) : (e.withInfo i).Sourced F T := by
  refine intro ?_ fun c hc => h.child (children_withInfo i e ▸ hc)
  have hnode := h.node
  cases e with
  | call j target => cases target <;> exact hnode
  | _ => exact hnode

theorem casted (h : e.Sourced F T) (c : Option Cast) : (e.casted c).Sourced F T := by
  cases c with
  | none => exact h
  | some c => exact intro trivial (List.forall_mem_singleton.mpr h)

theorem asCondition (h : e.Sourced F T) : (Parse.asCondition e).Sourced F T := by
  unfold Parse.asCondition
  split
  · exact h
  · exact h.casted _

theorem ofValue {v : Value} (h : v.Sourced F T) (span : Span) : (Expr.ofValue v span).Sourced F T :=
  intro h fun _ hc => nomatch hc

theorem unresolved (span : Span) : (Expr.unresolved span).Sourced F T :=
  intro trivial fun _ hc => nomatch hc

end Sourced

/-! ## Constants -/

theorem constants?_spec {es : List Expr} {vs : List Value} (h : constants? es = some vs) :
    (∀ v ∈ vs, ∃ e ∈ es, e.constant? = some v) ∧ ∀ e ∈ es, ∃ v, e.constant? = some v := by
  induction es generalizing vs with
  | nil =>
    cases h
    exact ⟨List.forall_mem_nil _, List.forall_mem_nil _⟩
  | cons e es ih =>
    rw [constants?] at h
    split at h
    · rename_i v vs' hv hvs
      cases h
      obtain ⟨hvalues, hitems⟩ := ih hvs
      refine ⟨List.forall_mem_cons.mpr ⟨⟨e, List.mem_cons_self, hv⟩, fun w hw => ?_⟩,
        List.forall_mem_cons.mpr ⟨⟨v, hv⟩, hitems⟩⟩
      obtain ⟨e', he', hw⟩ := hvalues w hw
      exact ⟨e', List.mem_cons_of_mem _ he', hw⟩
    · cases h

theorem exists_of_mem_constantEntries? {es : List (String × Expr)} {vs : List (String × Value)}
    (h : constantEntries? es = some vs) : ∀ v ∈ vs, ∃ e ∈ es, e.2.constant? = some v.2 := by
  induction es generalizing vs with
  | nil =>
    cases h
    exact List.forall_mem_nil _
  | cons e es ih =>
    obtain ⟨key, e⟩ := e
    rw [constantEntries?] at h
    split at h
    · rename_i v vs' hv hvs
      cases h
      refine List.forall_mem_cons.mpr ⟨⟨(key, e), List.mem_cons_self, hv⟩, fun w hw => ?_⟩
      obtain ⟨e', he', hw⟩ := ih hvs w hw
      exact ⟨e', List.mem_cons_of_mem _ he', hw⟩
    · cases h

theorem constantBound?_isSome {o : Option Expr} {n : Option Amount}
    (h : constantBound? o = some n) : n.isSome = o.isSome := by
  unfold constantBound? at h
  split at h
  · cases h
    rfl
  · split at h
    · cases h
      rfl
    · cases h

/-- A bound of a range that is a literal has a type. -/
theorem Built.of_isError_bound {Γ : TypeEnv} {b : Bool} {o : Option Expr} {n : Option Amount}
    (ho : constantBound? o = some n) {e : Expr} (he : e ∈ o) (hb : e.Built F Γ b)
    (herror : e.isError = true) : F := by
  cases he
  rw [constantBound?] at ho
  split at ho
  · rename_i hconst
    obtain ⟨i, rfl⟩ := eq_literal_of_constant? hconst
    cases hb with
    | literal hty =>
      rw [isError, info, hty] at herror
      cases herror
    | failed _ _ hfault => exact hfault
  · cases ho

/-- The kind of an expression made of literals is that of its value. -/
theorem Built.kind_constant {Γ : TypeEnv} {b : Bool} {e : Expr} (h : e.Built F Γ b) {v : Value}
    (hv : e.constant? = some v) : v.kind = e.kind ∨ F := by
  cases h with
  | literal hty =>
    cases hv
    exact .inl (congrArg Ty.kind hty).symm
  | list _ hty =>
    obtain ⟨vs, -, rfl⟩ := Option.map_eq_some_iff.mp hv
    exact .inl hty.symm
  | compound _ hty =>
    obtain ⟨vs, -, rfl⟩ := Option.map_eq_some_iff.mp hv
    exact .inl (congrArg Ty.kind hty).symm
  | range _ _ _ hty =>
    rw [constant?] at hv
    split at hv
    · cases hv
      exact .inl (congrArg Ty.kind hty).symm
    · cases hv
  | failedRange hmin hmax hfault _ =>
    rw [constant?] at hv
    split at hv
    · rename_i hl hh
      refine .inr (hfault.elim ?_ id)
      rintro ⟨e, he | he, herror⟩
      · exact (hmin e he).of_isError_bound hl he herror
      · exact (hmax e he).of_isError_bound hh he herror
    · cases hv
  | failed _ _ hfault _ => exact .inr hfault
  | _ => cases hv

/-- **Constants**: the value of an expression made of literals comes from the tokens, too. -/
theorem Sourced.constant {Γ : TypeEnv} {e : Expr} (hs : e.Sourced F T) (hb : e.Built F Γ true)
    {v : Value} (hv : e.constant? = some v) : v.Sourced F T := by
  induction e using induction_children generalizing v with
  | h e ih =>
    have hchild : ∀ c ∈ e.children, ∀ {v : Value}, c.constant? = some v → v.Sourced F T :=
      fun c hc v hv => ih c hc (hs.child hc) (hb.child c hc) hv
    cases e with
    | literal i w =>
      cases hv
      exact hs.node
    | list i es =>
      obtain ⟨vs, hvs, rfl⟩ := Option.map_eq_some_iff.mp hv
      obtain ⟨hvalues, hitems⟩ := constants?_spec hvs
      refine .list (fun v hv => ?_) ?_
      · obtain ⟨e, he, hev⟩ := hvalues v hv
        exact hchild e he hev
      · -- the items have the kinds of their expressions
        have hkind : ∀ e ∈ es, ∀ {v : Value}, e.constant? = some v → v.kind = e.kind ∨ F :=
          fun e he v hv => (hb.child e he).kind_constant hv
        rcases hs.node with hsame | ⟨e, he, herror⟩ | hfault
        · by_cases hF : F
          · exact .inr hF
          · refine .inl fun v hv w hw => ?_
            obtain ⟨e, he, hev⟩ := hvalues v hv
            obtain ⟨e', he', hew⟩ := hvalues w hw
            rw [(hkind e he hev).resolve_right hF, (hkind e' he' hew).resolve_right hF]
            exact hsame e he e' he'
        · obtain ⟨v, hv⟩ := hitems e he
          refine .inr ((hkind e he hv).resolve_left fun hve => v.kind_ne_error ?_)
          exact hve.trans (Expr.isError_iff.mp herror)
        · exact .inr hfault
    | compound i es =>
      obtain ⟨vs, hvs, rfl⟩ := Option.map_eq_some_iff.mp hv
      obtain ⟨hkeys, hvalues⟩ := Table.ofPairs_spec vs
      refine .compound hkeys fun entry hentry => ?_
      obtain ⟨q, hq, hqv⟩ := hvalues entry hentry
      obtain ⟨e, he, hev⟩ := exists_of_mem_constantEntries? hvs q hq
      rw [hqv]
      exact hchild e.2 (List.mem_map_of_mem he) hev
    | range i l h =>
      rw [constant?] at hv
      split at hv
      · rename_i min max hl hh
        cases hv
        refine .range ?_
        have hnode : l.isSome = true ∨ h.isSome = true := hs.node
        rwa [constantBound?_isSome hl, constantBound?_isSome hh]
      · cases hv
    | _ => cases hv

end Expr

/-! ## Expressions that are made -/

theorem Value.Sourced.of_number? {F : Prop} {T : List Located} {negative : Bool} {t : Token}
    {v : Value} (ht : t.Among T) (hv : Parse.number? negative t = .ok v) : v.Sourced F T := by
  unfold Parse.number? at hv
  split at hv
  · split at hv
    · rename_i hword
      cases hv
      exact .integer negative ht hword
    · cases hv
  · cases hv
    exact .float _
  · cases hv
    exact .double _
  · cases hv

section Made

open Parsing

variable {F : Prop} {tokens : List Located} {s s' : Parsing}

theorem Value.Read.sourced {v : Value} (h : v.Read tokens) : v.Sourced F tokens := by
  cases h with
  | number ht hv => exact .of_number? ht hv
  | string ht => exact .string ht
  | bool b => exact .bool b
  | selector ht hs => exact .selector ht hs
  | resource ht => exact .resource ht

/-- **Expressions** are made of what stands among the tokens. -/
theorem Expr.Made.sourced {b : Bool} {e : Expr} (h : e.Made tokens b s s')
    (hF : ¬ s'.Clean → F) : e.Sourced F tokens := by
  have hpair : ∀ {l r : Expr}, l.Sourced F tokens → r.Sourced F tokens →
      ∀ c ∈ [l, r], c.Sourced F tokens := fun hl hr =>
    List.forall_mem_cons.mpr ⟨hl, List.forall_mem_singleton.mpr hr⟩
  have hbounds : ∀ {min max : Option Expr}, (∀ e ∈ min, e.Sourced F tokens) →
      (∀ e ∈ max, e.Sourced F tokens) → ∀ c ∈ min.toList ++ max.toList, c.Sourced F tokens := by
    intro min max hmin hmax c hc
    rcases List.mem_append.mp hc with hc | hc
    · exact hmin c (Option.mem_toList.mp hc)
    · exact hmax c (Option.mem_toList.mp hc)
  induction h with
  | widen _ _ h₁ ih => exact ih (h₁.takes.excused hF)
  | operand _ ih => exact ih hF
  | cast _ _ ih => exact (ih hF).casted _
  | literal hv _ => exact .ofValue hv.sourced _
  | item ht hdata hconst _ ih =>
    cases (ih hF).constant (hdata.built hF).operand hconst with
    | compound hkeys hentries => exact .ofValue (.item ht hkeys hentries) _
  | unresolved => exact .unresolved _
  | name hx _ => exact .intro hx (List.forall_mem_nil _)
  | variant henum hx _ => exact .intro ⟨henum, hx⟩ (List.forall_mem_nil _)
  | @call b s s' target span htarget _ =>
    cases target with
    | here | elsewhere => exact .intro htarget (List.forall_mem_nil _)
  | binary _ _ _ _ ihl ihr =>
    exact .intro trivial (hpair ((ihl hF).casted _) ((ihr hF).casted _))
  | failedBinary _ _ _ ihl ihr => exact .intro trivial (hpair (ihl hF) (ihr hF))
  | unary _ _ _ ih => exact .intro trivial (List.forall_mem_singleton.mpr ((ih hF).casted _))
  | failedUnary _ _ _ ih => exact .intro trivial (List.forall_mem_singleton.mpr (ih hF))
  | range _ _ _ hsome _ ihmin ihmax | failedRange _ _ _ hsome _ ihmin ihmax =>
    exact .intro hsome (hbounds (fun e he => ihmin e he hF) fun e he => ihmax e he hF)
  | list h hitems h' hty hkinds ih =>
    have hinner := ((takes_advance _).trans h'.takes).excused hF
    refine .intro ?_ fun e he => ih e he hinner
    exact hkinds.imp_right (.imp_right hF)
  | compound h hentries ih =>
    refine .intro trivial fun c hc => ?_
    obtain ⟨entry, hentry, rfl⟩ := List.mem_map.mp hc
    exact ih entry hentry ((takes_advance _).excused hF)
  | parenthesized h he ih => exact (ih ((takes_advance _).excused hF)).withInfo _
  | extended _ h ih => exact (ih ((Lies.last h).moves.takes.excused hF)).withInfo _
  | failed _ h _ ih => exact (ih ((Lies.last h).moves.takes.excused hF)).withInfo _
  | member _ h hx _ _ ih iha =>
    refine .intro hx (List.forall_mem_cons.mpr ⟨?_, fun a ha => iha a ha hF⟩)
    exact ih ((Lies.last h).moves.takes.excused hF)
  | dataPath _ h _ hpath ih =>
    exact .intro hpath (List.forall_mem_singleton.mpr (ih ((Lies.last h).moves.takes.excused hF)))

end Made

/-! ## Statements -/

namespace Stmt

/-- Whether the statement is a function. -/
def isFunction : Stmt → Bool
  | function _ _ _ _ => true
  | _ => false

/-- What the expressions of a statement are made of stands among the tokens, and no function stands
right inside it. -/
structure SourcedNode (F : Prop) (T : List Located) (t : Stmt) : Prop where
  operands : ∀ e ∈ t.operands, e.Sourced F T
  inner : ∀ u ∈ t.children, u.isFunction = false

/-- What all statements in the statement are made of stands among the tokens. -/
def Sourced (F : Prop) (T : List Located) (t : Stmt) : Prop :=
  ∀ p : Stmt, p.Part t → p.SourcedNode F T

/-- The statement is one that may stand inside another. -/
def SourcedInside (F : Prop) (T : List Located) (t : Stmt) : Prop :=
  t.Sourced F T ∧ t.isFunction = false

variable {F : Prop} {T : List Located} {t : Stmt}

theorem Sourced.intro (hoperands : ∀ e ∈ t.operands, e.Sourced F T)
    (hinner : ∀ u ∈ t.children, u.SourcedInside F T) : t.Sourced F T := by
  intro p hp
  cases hp with
  | self => exact ⟨hoperands, fun u hu => (hinner u hu).2⟩
  | child hc hp => exact (hinner _ hc).1 p hp

/-- A statement with no other one inside. -/
theorem Sourced.leaf (hoperands : ∀ e ∈ t.operands, e.Sourced F T) (hleaf : t.children = []) :
    t.Sourced F T :=
  .intro hoperands (hleaf ▸ List.forall_mem_nil _)

theorem SourcedInside.error (span : Span) : (Stmt.error span).SourcedInside F T :=
  ⟨.leaf (List.forall_mem_nil _) rfl, rfl⟩

theorem SourcedInside.command {span : Span} {c : Command}
    (h : ∀ e ∈ c.operands, e.Sourced F T) : (Stmt.command span c).SourcedInside F T :=
  ⟨.leaf h rfl, rfl⟩

end Stmt

section Made

open Parsing

variable {F : Prop} {tokens : List Located} {s s' : Parsing}

theorem Storing.sourced {op : BinaryOp} {e : Expr} {o : Option Operation}
    (h : Storing tokens op s s' e o) (hF : ¬ s'.Clean → F) : e.Sourced F tokens := by
  cases h with
  | resolved he _ => exact (he.sourced hF).casted _
  | failed he _ => exact he.sourced hF

theorem Stmt.Leaf.sourced {t : Stmt} (h : t.Leaf tokens s s') (hF : ¬ s'.Clean → F) :
    t.SourcedInside F tokens := by
  cases h with
  | letPlain _ _ he | letTyped _ _ he _ _ =>
    have hsourced := he.sourced ((takes_declare _ _ _).excused hF)
    exact ⟨.leaf (List.forall_mem_singleton.mpr hsourced) rfl, rfl⟩
  | varPlain | enum | «return» => exact ⟨.leaf (List.forall_mem_nil _) rfl, rfl⟩
  | var _ _ he =>
    have hsourced := he.sourced ((takes_declare _ _ _).excused hF)
    exact ⟨.leaf (List.forall_mem_singleton.mpr hsourced) rfl, rfl⟩
  | assign htarget _ he =>
    refine ⟨.leaf (List.forall_mem_cons.mpr ⟨htarget.sourced hF, ?_⟩) rfl, rfl⟩
    exact List.forall_mem_singleton.mpr (he.sourced hF)
  | misassign htarget _ he =>
    refine ⟨.leaf (List.forall_mem_cons.mpr ⟨htarget.sourced hF, ?_⟩) rfl, rfl⟩
    exact List.forall_mem_singleton.mpr (he.sourced hF)
  | expr he => exact ⟨.leaf (List.forall_mem_singleton.mpr (he.sourced hF)) rfl, rfl⟩
  | command _ _ hc => exact .command fun e he => (hc e he).sourced hF

theorem Nests.excused {u u' : Parsing} (h : Nests s u u' s') (hF : ¬ s'.Clean → F) :
    ¬ u'.Clean → F := by
  cases h with
  | same | scope => exact hF

/-- **Bodies** are made of what stands among the tokens, and only at the top of a script there are
functions. -/
theorem BodyMade.sourced {n : Bool} {ts : List Stmt} (h : BodyMade tokens n s ts s')
    (hF : ¬ s'.Clean → F) :
    ∀ t ∈ ts, t.Sourced F tokens ∧ (n = true → t.isFunction = false) := by
  have hone : ∀ {n : Bool} {t : Stmt}, t.SourcedInside F tokens →
      ∀ u ∈ [t], u.Sourced F tokens ∧ (n = true → u.isFunction = false) := fun ht =>
    List.forall_mem_singleton.mpr ⟨ht.1, fun _ => ht.2⟩
  have hinside : ∀ {ts : List Stmt}, (∀ t ∈ ts, t.Sourced F tokens ∧
      (true = true → t.isFunction = false)) → ∀ t ∈ ts, t.SourcedInside F tokens :=
    fun h t ht => ⟨(h t ht).1, (h t ht).2 rfl⟩
  induction h with
  | moves => exact List.forall_mem_nil _
  | append h h' ih ih' =>
    intro t ht
    rcases List.mem_append.mp ht with ht | ht
    · exact ih (h'.takes.excused hF) t ht
    · exact ih' hF t ht
  | leaf h => exact hone (h.sourced hF)
  | block hopen h hclose ih =>
    have hbody := hinside (ih ((takes_advance (leaveScope _)).excused hF))
    exact hone ⟨.intro (List.forall_mem_nil _) hbody, rfl⟩
  | ifThen hplain he hn ht ih =>
    have hcondition := he.sourced ((hn.passage ht.passage).takes.excused hF)
    refine hone ⟨.intro (List.forall_mem_singleton.mpr hcondition.asCondition) ?_, rfl⟩
    exact hinside (ih (hn.excused hF))
  | ifElse hplain he hn ht helse h hn' ht' ih ih' =>
    have hmore := h.takes.trans (hn'.passage ht'.passage).takes
    have hF₂ := ((takes_advance _).trans hmore).excused hF
    have hcondition := he.sourced ((hn.passage ht.passage).takes.excused hF₂)
    refine hone ⟨.intro (List.forall_mem_singleton.mpr hcondition.asCondition) ?_, rfl⟩
    refine List.forall_mem_cons.mpr ⟨?_, hinside (ih' (hn'.excused hF))⟩
    exact hinside (ih (hn.excused hF₂)) _ List.mem_cons_self
  | «while» hplain he hn ht ih =>
    have hcondition := he.sourced ((hn.passage ht.passage).takes.excused hF)
    refine hone ⟨.intro (List.forall_mem_singleton.mpr hcondition.asCondition) ?_, rfl⟩
    exact hinside (ih (hn.excused hF))
  | context hplain he hn ht ih =>
    have hselector := he.sourced ((hn.passage ht.passage).takes.excused hF)
    refine hone ⟨.intro (List.forall_mem_singleton.mpr hselector) ?_, rfl⟩
    exact hinside (ih (hn.excused hF))
  | function hplain hx hnotes h hopen hbody hclose ih =>
    have hbody := hinside (ih ((takes_advance (leaveScope _)).excused hF))
    exact List.forall_mem_singleton.mpr ⟨.intro (List.forall_mem_nil _) hbody, fun h => by cases h⟩
  | error => exact hone (.error _)

theorem ScriptMade.sourced {ts : List Stmt} (h : ScriptMade tokens n s ts s')
    (hF : ¬ s'.Clean → F) : ∀ t ∈ ts, t.Sourced F tokens := by
  induction h with
  | stop h => exact fun t ht => (h.sourced hF t ht).1
  | step h hpeek h' ih =>
    have hmore := (takes_advance _).trans ((takes_complain _ _ _).trans h'.takes)
    intro t ht
    rcases List.mem_append.mp ht with ht | ht
    · exact (h.sourced (hmore.excused hF) t ht).1
    · exact ih hF t ht

end Made

/-- **Scripts** are made of what stands among the tokens. -/
theorem parseScript_sourced (tokens : List Located) {F : Prop}
    (h : (parseScript tokens).2.hasErrors = false ∨ F) :
    ∀ t ∈ (parseScript tokens).1.body, t.Sourced F tokens := by
  obtain ⟨s', hreport, hmade, -⟩ := parseScript_made tokens
  rw [hreport] at h
  exact hmade.sourced h.resolve_left

/-- **Functions** stand at the top: a function that is part of a statement is that statement. -/
theorem Stmt.Sourced.eq_of_part {F : Prop} {T : List Located} {t u : Stmt} (hu : u.Sourced F T)
    (ht : t.isFunction = true) (hpart : t.Part u) : t = u := by
  have hinside : t = u ∨ t.isFunction = false := by
    induction hpart with
    | self => exact .inl rfl
    | @child c v hc hpart ih =>
      rcases ih fun p hp => hu p (.child hc hp) with rfl | hfalse
      · exact .inr ((hu v .self).inner _ hc)
      · exact .inr hfalse
  exact hinside.resolve_right (by simp [ht])

end Packwright
