import Packwright.Proofs.Parsing.Built
import Packwright.Proofs.Rules
import Packwright.Proofs.Scopes
import Packwright.Token.Stream

/-!
# Expressions have values of their kinds

An expression that reading built and gave a type, in a draft that gives its names values of their
kinds or none, has a value of its kind.  It has none only if generation comes to a part without a
value: a name, a call, or an operator or a member that fails.

* `Expr.Fits`, `Expr.Built.fits`: the entries of the tables in a node fit the kinds of its parts.
* `Expr.Valueless d`: why a node has no value in a draft.
* `Expr.progresses`: the induction over all expressions.
* `generate_progresses`: the expressions of a script.
-/

namespace Packwright

open Gen

namespace Expr

/-! ## Kinds in a node -/

/-- The entry, the cast or the member in a node fits the kinds of its parts. -/
def Fits : Expr → Prop
  | literal i v => v.kind = i.ty.kind
  | name _ _ | call _ _ => True
  | binary i _ l r o => ∃ o' ∈ o, o'.rule.signature l.kind r.kind i.ty.kind = true
  | unary i _ e o => ∃ o' ∈ o, o' ∈ e.kind.unaryOperations ∧ o'.result = i.ty.kind
  | cast i e c => Kind.cast? e.kind i.ty.kind = some c
  | range i min max => i.ty.kind = .range ∧ ∀ e, e ∈ min ∨ e ∈ max → e.kind = .int
  | list i _ => i.ty.kind = .list
  | compound i _ => i.ty.kind = .compound
  | member i e x m _ => Kind.member? e.kind x = some m ∧ m.result = i.ty.kind
  | dataPath i e _ => e.kind = .selector ∧ i.ty.kind = .data
  | variant i _ _ => i.ty.kind = .enum
  | error _ => False

/-- **Nodes** that reading built and gave a type fit. -/
theorem Built.fits {F : Prop} {Γ : TypeEnv} {b : Bool} {e : Expr} (h : e.Built F Γ b)
    (herror : e.isError = false) : e.Fits := by
  have hfailed : e.ty = .unresolved → e.Fits := by
    intro hty
    have : e.isError = true := by
      show e.ty.isError = true
      rw [hty]
      rfl
    rw [this] at herror
    cases herror
  cases h with
  | literal hty => exact (congrArg Ty.kind hty).symm
  | name _ | call _ => exact trivial
  | @binary _ i op l r res hl hr hop hres hty =>
    obtain ⟨left, hleft, hright, hmem, hjoins⟩ := resolveBinary?_spec hres
    refine ⟨res.operation, rfl, ?_⟩
    rw [kind_casted hleft, kind_casted hright, hty]
    exact Kind.signature_of_mem_operations hmem (hjoins ▸ hop)
  | @unary _ i op e c o he hres hty =>
    obtain ⟨operand, hoperand, hmem, -⟩ := resolveUnary?_spec hres
    exact ⟨o, rfl, (kind_casted hoperand).symm ▸ hmem, (congrArg Ty.kind hty).symm⟩
  | @cast i e c he hc hty =>
    show Kind.cast? e.kind i.ty.kind = some c
    rw [hty]
    exact hc
  | range _ _ hkinds hty => exact ⟨congrArg Ty.kind hty, hkinds⟩
  | list _ hty => exact hty
  | compound _ hty | variant hty => exact congrArg Ty.kind hty
  | member _ hm _ hty => exact ⟨hm, (congrArg Ty.kind hty).symm⟩
  | dataPath _ hkind hty => exact ⟨hkind, congrArg Ty.kind hty⟩
  | unknown _ hty | failedBinary _ _ _ hty | failedUnary _ _ hty | failedRange _ _ _ hty
  | error _ hty => exact hfailed hty
  | failed _ he' _ hty =>
    refine hfailed ?_
    rw [he', ty, info_withInfo]
    exact hty

/-! ## Values of nodes -/

/-- Why a node has no value in a draft. -/
inductive Valueless (d : Draft) : Expr → Prop
  | name {i : Info} {x : String} (h : d.lookup? x = none) : Valueless d (.name i x)
  | call {i : Info} {target : CallTarget} : Valueless d (.call i target)
  | binary {i : Info} {op : BinaryOp} {l r : Expr} {o : Operation} {v w : Value}
    (hvalues : ((generateAll [l, r]).run.run d).1 = some [v, w]) (h : o.rule.Fails v w) :
    Valueless d (.binary i op l r (some o))
  | member {i : Info} {e : Expr} {x : String} {m : Member} {args : List Expr} {v : Value}
    {values : List Value}
    (hvalues : ((generateAll (e :: args)).run.run d).1 = some (v :: values))
    (h : m.rule.Fails v x) : Valueless d (.member i e x m args)

/-- Generation comes to a part that has no value. -/
def Stuck (e : Expr) (d : Draft) : Prop :=
  ∃ (p : Expr) (d' : Draft), p.Meets d' e d ∧ p.Valueless d'

/-- The expression has a value of its kind, or generation comes to a part that has none. -/
def Progresses (e : Expr) (d : Draft) : Prop :=
  (e.generate.run.run d).1.elim (e.Stuck d) fun v => v.kind = e.kind

theorem run_generateAll_cons {e : Expr} {es : List Expr} {v : Value} {vs : List Value}
    {d d₁ d₂ : Draft} (h : e.generate.run.run d = (some v, d₁))
    (h' : (generateAll es).run.run d₁ = (some vs, d₂)) :
    (generateAll (e :: es)).run.run d = (some (v :: vs), d₂) := by
  rw [generateAll, run_andThen h, run_andThen h']
  rfl

/-- Several expressions have values of their kinds, or generation comes to one that has none. -/
theorem all_progress {es : List Expr} {d : Draft}
    (h : ∀ e ∈ es, ∀ d₁ : Draft, d₁.scopes = d.scopes → e.Progresses d₁) :
    ((generateAll es).run.run d).1.elim
      (∃ before c after values d₁, es = before ++ c :: after ∧
        (generateAll before).run.run d = (some values, d₁) ∧ c.Stuck d₁)
      fun vs => vs.map Value.kind = es.map Expr.kind := by
  induction es generalizing d with
  | nil => rfl
  | cons e es ih =>
    have he := h e List.mem_cons_self d rfl
    have hscopes := Keeps.writes.generate e d
    unfold Progresses at he
    cases hrun : e.generate.run.run d with
    | mk result d₁ =>
    rw [hrun] at he hscopes
    cases result with
    | none =>
      rw [generateAll, run_andThen_none hrun]
      exact ⟨[], e, es, [], d, rfl, rfl, he⟩
    | some v =>
      have hrest := ih (d := d₁) fun c hc d₂ hd₂ =>
        h c (List.mem_cons_of_mem _ hc) d₂ (hd₂.trans hscopes)
      cases hrun' : (generateAll es).run.run d₁ with
      | mk results d₂ =>
      rw [hrun'] at hrest
      cases results with
      | none =>
        obtain ⟨before, c, after, values, d₃, rfl, hbefore, hstuck⟩ := hrest
        rw [generateAll, run_andThen hrun, run_andThen_none hrun']
        exact ⟨e :: before, c, after, v :: values, d₃, rfl,
          run_generateAll_cons hrun hbefore, hstuck⟩
      | some vs =>
        rw [run_generateAll_cons hrun hrun']
        exact congrArg₂ List.cons he hrest

/-- A node whose value is made of those of its parts. -/
theorem Progresses.of_children {e : Expr} {d : Draft} {f : List Value → OptionT Gen Value}
    (hgenerate : e.generate = generateAll e.children >>= f)
    (hchildren : ∀ c ∈ e.children, ∀ d₁ : Draft, d₁.scopes = d.scopes → c.Progresses d₁)
    (hf : ∀ vs : List Value, ((generateAll e.children).run.run d).1 = some vs →
      vs.map Value.kind = e.children.map Expr.kind →
        Returns (f vs) (fun v => v.kind = e.kind) (e.Valueless d)) : e.Progresses d := by
  have hall := all_progress hchildren
  unfold Progresses
  rw [hgenerate]
  cases hrun : (generateAll e.children).run.run d with
  | mk results d₁ =>
  rw [hrun] at hall hf
  cases results with
  | none =>
    obtain ⟨before, c, after, values, d₂, hc, hbefore, p, d', hmeets, hp⟩ := hall
    rw [run_andThen_none hrun]
    exact ⟨p, d', .child hc hbefore hmeets, hp⟩
  | some vs =>
    rw [run_andThen hrun]
    have hvalue := hf vs rfl hall d₁
    cases hresult : ((f vs).run.run d₁).1 with
    | none =>
      rw [hresult] at hvalue
      exact ⟨e, d, .self, hvalue⟩
    | some v =>
      rw [hresult] at hvalue
      exact hvalue

theorem generateEntries_eq (es : List (String × Expr)) : generateEntries es =
    generateAll (es.map Prod.snd) >>= fun vs => pure ((es.map Prod.fst).zip vs) := by
  induction es with
  | nil => simp [generateEntries, generateAll]
  | cons entry es ih => simp [generateEntries, generateAll, ih]

/-- A bound of a range has a value that is a bound, or generation comes to a part without a
value. -/
theorem bound_progresses {o : Option Expr} {d : Draft}
    (hkinds : ∀ e ∈ o, e.kind = .int) (h : ∀ e ∈ o, e.Progresses d) :
    (∃ n values d₁, (generateBound o).run.run d = (some n, d₁) ∧
      (generateAll o.toList).run.run d = (some values, d₁)) ∨
    ∃ e d₁, o = some e ∧ (generateBound o).run.run d = (none, d₁) ∧ e.Stuck d := by
  cases o with
  | none => exact .inl ⟨none, [], d, rfl, rfl⟩
  | some e =>
    have he := h e rfl
    unfold Progresses at he
    cases hrun : e.generate.run.run d with
    | mk result d₁ =>
    rw [hrun] at he
    cases result with
    | none =>
      refine .inr ⟨e, d₁, rfl, ?_, he⟩
      rw [generateBound, run_andThen_none hrun]
    | some v =>
      obtain ⟨n, rfl⟩ := Value.isOf_of_kind (he.trans (hkinds e rfl))
      refine .inl ⟨some n, [.integer .int n], d₁, ?_, run_generateAll_cons hrun rfl⟩
      rw [generateBound, run_andThen hrun]
      rfl

theorem Progresses.range {i : Info} {min max : Option Expr} {d : Draft}
    (hfits : (Expr.range i min max).Fits)
    (h : ∀ e, e ∈ min ∨ e ∈ max → ∀ d₁ : Draft, d₁.scopes = d.scopes → e.Progresses d₁) :
    (Expr.range i min max).Progresses d := by
  obtain ⟨hrange, hkinds⟩ := hfits
  unfold Progresses
  rw [generate]
  have hmin := bound_progresses (d := d) (fun e he => hkinds e (.inl he))
    fun e he => h e (.inl he) d rfl
  rcases hmin with ⟨n, values, d₁, hbound, hvalues⟩ | ⟨e, d₁, rfl, hbound, p, d', hmeets, hp⟩
  · have hscopes := Keeps.writes.generateBound min d
    rw [hbound] at hscopes
    have hmax := bound_progresses (d := d₁) (fun e he => hkinds e (.inr he))
      fun e he => h e (.inr he) d₁ hscopes
    rw [run_andThen hbound]
    rcases hmax with ⟨n', values', d₂, hbound', -⟩ | ⟨e, d₂, rfl, hbound', p, d', hmeets, hp⟩
    · rw [run_andThen hbound']
      exact hrange.symm
    · rw [run_andThen_none hbound']
      exact ⟨p, d', @Meets.child p d' _ e min.toList [] values d d₁ rfl hvalues hmeets, hp⟩
  · rw [run_andThen_none hbound]
    exact ⟨p, d', @Meets.child p d' _ e [] max.toList [] d d rfl rfl hmeets, hp⟩

theorem single_of_kinds {vs : List Value} {k : Kind} (h : vs.map Value.kind = [k]) :
    ∃ v, vs = [v] ∧ v.kind = k := by
  simpa [List.map_eq_cons_iff] using h

theorem pair_of_kinds {vs : List Value} {k k' : Kind} (h : vs.map Value.kind = [k, k']) :
    ∃ v w, vs = [v, w] ∧ v.kind = k ∧ w.kind = k' := by
  obtain ⟨v, rest, rfl, hv, hrest⟩ := List.map_eq_cons_iff.mp h
  obtain ⟨w, rfl, hw⟩ := single_of_kinds hrest
  exact ⟨v, w, rfl, hv, hw⟩

/-- The data at a path of what a selector selects. -/
def dataAt (path : String) : Value → OptionT Gen Value
  | .selector target => pure (.data ⟨target, path⟩)
  | _ => failure

/-- **Nodes**: where the parts have values of their kinds or lead to one without, so does a node. -/
theorem Progresses.node {e : Expr} {d : Draft} (hfits : e.Fits)
    (hname : ∀ i x, e = .name i x → ∀ v ∈ d.lookup? x, v.kind = i.ty.kind)
    (h : ∀ c ∈ e.children, ∀ d₁ : Draft, d₁.scopes = d.scopes → c.Progresses d₁) :
    e.Progresses d := by
  cases e with
  | literal i v => exact hfits
  | name i x =>
    show (d.lookup? x).elim _ _
    cases hlookup : d.lookup? x with
    | none => exact ⟨_, d, .self, .name hlookup⟩
    | some v => exact hname i x rfl v hlookup
  | binary i op l r o =>
    obtain ⟨o, rfl, hsignature⟩ := hfits
    refine .of_children (f := fun vs => vs[0]?.elim failure fun v => vs[1]?.elim failure
      (o.rule.apply v)) (by simp [generate, children, generateAll]) h fun vs hvs hkinds => ?_
    obtain ⟨v, w, rfl, hv, hw⟩ := pair_of_kinds hkinds
    exact (BinaryRule.returns hsignature hv hw).imp (.binary hvs)
  | unary i op e o =>
    obtain ⟨o, rfl, hmem, hresult⟩ := hfits
    refine .of_children (f := fun vs => vs[0]?.elim failure o.rule.apply)
      (by simp [generate, children, generateAll]) h fun vs hvs hkinds => ?_
    obtain ⟨v, rfl, hv⟩ := single_of_kinds hkinds
    show Returns (o.rule.apply v) (fun u => u.kind = i.ty.kind) _
    rw [← hresult]
    exact UnaryRule.returns hmem hv
  | cast i e c =>
    refine .of_children (f := fun vs => vs[0]?.elim failure c.apply)
      (by simp [generate, children, generateAll]) h fun vs hvs hkinds => ?_
    obtain ⟨v, rfl, hv⟩ := single_of_kinds hkinds
    exact Cast.returns hfits hv
  | range i min max =>
    refine .range hfits fun e he => h e ?_
    rcases he with he | he
    · exact List.mem_append_left _ (Option.mem_toList.mpr he)
    · exact List.mem_append_right _ (Option.mem_toList.mpr he)
  | list i es =>
    refine .of_children (f := fun vs => pure (.list vs)) (by simp [generate, children]) h
      fun vs hvs hkinds => .pure hfits.symm
  | compound i es =>
    refine .of_children (f := fun vs => pure (.compound (Table.ofPairs ((es.map Prod.fst).zip vs))))
      (by simp [generate, children, generateEntries_eq]) h fun vs hvs hkinds => .pure hfits.symm
  | member i e x m args =>
    obtain ⟨hm, hresult⟩ := hfits
    refine .of_children (f := fun vs => vs[0]?.elim failure (m.rule.apply · x))
      (by simp [generate, children, generateAll]) h fun vs hvs hkinds => ?_
    obtain ⟨v, rest, rfl, hv, -⟩ := List.map_eq_cons_iff.mp hkinds
    show Returns (m.rule.apply v x) (fun u => u.kind = i.ty.kind) _
    rw [← hresult]
    exact (MemberRule.returns hm hv).imp (.member hvs)
  | dataPath i e path =>
    obtain ⟨hselector, hdata⟩ := hfits
    refine .of_children (f := fun vs => vs[0]?.elim failure (dataAt path)) ?_ h
      fun vs hvs hkinds => ?_
    · simp only [generate, children, generateAll, bind_assoc, pure_bind]
      refine bind_congr fun v => ?_
      cases v <;> rfl
    obtain ⟨v, rfl, hv⟩ := single_of_kinds hkinds
    obtain ⟨target, rfl⟩ := Value.isOf_of_kind (hv.trans hselector)
    exact .pure hdata.symm
  | variant i enum x => exact hfits.symm
  | call i target => exact ⟨_, d, .self, .call⟩
  | error i => exact hfits.elim

end Expr

/-- The draft gives the names in an expression values of their kinds, or none. -/
def Draft.Types (d : Draft) (e : Expr) : Prop :=
  ∀ i x, (Expr.name i x).Part e → ∀ v ∈ d.lookup? x, v.kind = i.ty.kind

namespace Expr

/-- **Expressions** whose nodes fit have values of their kinds, or generation comes to a part that
has none. -/
theorem progresses (e : Expr) : ∀ d : Draft, (∀ p : Expr, p.Part e → p.Fits) → d.Types e →
    e.Progresses d := by
  induction e using induction_children with
  | h e ih =>
    intro d hfits hd
    refine .node (hfits e .self) (fun i x he => hd i x (he ▸ .self)) fun c hc d₁ hd₁ => ?_
    refine ih c hc d₁ (fun p hp => hfits p (.child hc hp)) fun i x hpart v hv => ?_
    refine hd i x (.child hc hpart) v ?_
    rwa [Draft.lookup?, hd₁] at hv

end Expr

/-- **Type soundness and progress**: in an expression of a script let every part have a type, and
let a draft give its names values of their kinds or none.  Then it has a value of its kind, or
generation comes to a part that has no value: a name that has none, a call, a method without a
result, an absent bound of a range, a length that is too great, an integer division by zero, or the
order of something that is not a number. -/
theorem generate_progresses (tokens : List Located) {t : Stmt}
    (ht : (parseScript tokens).1.Contains t) {e p : Expr} (he : e ∈ t.operands) (hp : p.Part e)
    (herror : ∀ q : Expr, q.Part p → q.isError = false) (d : Draft)
    (hd : ∀ i x, (Expr.name i x).Part p → ∀ v, d.lookup? x = some v → v.kind = i.ty.kind) :
    match (p.generate.run.run d).1 with
    | some v => v.kind = p.kind
    | none => ∃ (q : Expr) (d' : Draft), q.Meets d' p d ∧ q.Valueless d' := by
  obtain ⟨u, hu, hpart⟩ := ht
  obtain ⟨Γ, hbuilt⟩ := parseScript_built tokens (Or.inr trivial)
  obtain ⟨Γ₁, Γ₂, hbuilt⟩ := hbuilt.of_mem hu
  obtain ⟨Γ₃, Γ₄, hbuilt⟩ := hbuilt.part hpart
  have hbuilt := (hbuilt.operand he).part hp
  have hprogress := p.progresses d (fun q hq => (hbuilt.part hq).fits (herror q hq)) hd
  unfold Expr.Progresses at hprogress
  split
  · rename_i v hv
    rwa [hv] at hprogress
  · rename_i hnone
    rwa [hnone] at hprogress

/-- A source in which an integer is divided by the difference of a length and a constant. -/
def quotientByName : String := "let x = 2\nlet y = 1.5d < 6 / (\"ab\".length - x)\n"

/-- The draft behind the first statement of the source. -/
def behindConstant : Draft :=
  ((generateAll ((parseScript (tokenize quotientByName).1).1.body.take 1)).run (.empty {})).2

/-- All parts have types, the constant has a value of its kind, and only the quotient has none. -/
theorem quotientByName_facts :
    (∀ t ∈ (parseScript (tokenize quotientByName).1).1.body, ∀ e ∈ t.operands,
      ∀ q : Expr, q.Part e → q.isError = false ∧ (match q with
        | .name i x => (behindConstant.lookup? x).all fun v => v.kind = i.ty.kind
        | _ => true) = true) ∧
      (behindConstant.lookup? "x").isSome = true ∧
      ((parseScript (tokenize quotientByName).1).1.body.flatMap Stmt.operands).map
        (fun e => (e.generate.run.run behindConstant).1.isSome) = [true, false] := by
  decide +kernel

theorem generate_progresses_quotientByName :
    (behindConstant.lookup? "x").isSome = true ∧
      ((parseScript (tokenize quotientByName).1).1.body.flatMap Stmt.operands).map
        (fun e => (e.generate.run.run behindConstant).1.isSome) = [true, false] ∧
      ∀ t ∈ (parseScript (tokenize quotientByName).1).1.body, ∀ e ∈ t.operands,
        (∀ q : Expr, q.Part e → q.isError = false) ∧
        (∀ i x, (Expr.name i x).Part e → ∀ v, behindConstant.lookup? x = some v →
          v.kind = i.ty.kind) ∧
        match (e.generate.run.run behindConstant).1 with
        | some v => v.kind = e.kind
        | none => ∃ (q : Expr) (d' : Draft), q.Meets d' e behindConstant ∧ q.Valueless d' := by
  obtain ⟨hparts, hvalue, hresults⟩ := quotientByName_facts
  refine ⟨hvalue, hresults, fun t ht e he => ?_⟩
  have herror := fun q hq => (hparts t ht e he q hq).1
  have htypes : ∀ i x, (Expr.name i x).Part e → ∀ v, behindConstant.lookup? x = some v →
      v.kind = i.ty.kind := by
    intro i x hpart v hv
    have hkind := (hparts t ht e he _ hpart).2
    simpa [hv] using hkind
  exact ⟨herror, htypes, generate_progresses _ ⟨t, ht, .self⟩ he .self herror behindConstant htypes⟩

end Packwright
