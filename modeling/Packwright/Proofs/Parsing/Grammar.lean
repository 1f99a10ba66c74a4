import Packwright.Proofs.Parsing.Logic
import Packwright.Proofs.Parsing.Trees

/-!
# How trees come about

A tree is made between two states, that in front of its first token and that behind its last one.
`Expr.Made` and `BodyMade` have one case for each way in which reading makes a node, with the types
of names, the operators that were found and the places of the tokens.  Nodes that could not be
resolved are among them; then an issue was reported, unless an operand has no type.  What a tree is
like follows from how it was made, by induction.

* `Lies tokens s s' span`: a place between two states.
* `Expr.Made tokens b s s' e`: expressions; only operands, for which the flag stands, can be casts.
* `Stmt.Leaf`, `BodyMade`, `ScriptMade`: statements, bodies and scripts.
* `Expr.Made.lies`, `BodyMade.passage`, `BodyMade.ate`: the way from one state to the other.
-/

namespace Packwright

open Parsing

/-! ## Places -/

/-- Something in brackets: `s` stands at the opening one, and `s₁` at the closing one. -/
structure Enclosed (tokens : List Located) (s s₁ : Parsing) : Prop where
  start : Spot tokens s.here
  inner : s.advance.Moves tokens s₁
  stop : Spot tokens s₁.here
  marks : s.peek.isPlain = true ∧ s₁.peek.isPlain = true ∨
    s.peek = .mark .lbrace ∧ s₁.peek = .mark .rbrace

/-- A token is taken in the state `s`, and reading moves on to `s'`. -/
structure Taking (tokens : List Located) (s s' : Parsing) : Prop where
  plain : s.peek.isPlain = true
  moves : s.advance.Moves tokens s'
  last : Spot tokens s'.last

/-- The place lies between two states. -/
inductive Lies (tokens : List Located) : Parsing → Parsing → Span → Prop
  | last {s s' : Parsing} (h : Taking tokens s s') : Lies tokens s s' s'.last
  | enclosed {s s₁ : Parsing} (h : Enclosed tokens s s₁) :
    Lies tokens s s₁.advance (s.here.merge s₁.here)
  | merge {s s' : Parsing} {a b : Span} (ha : Lies tokens s s' a) (hb : Lies tokens s s' b) :
    Lies tokens s s' (a.merge b)
  | widen {s₀ s s' s₁ : Parsing} {span : Span} (h₀ : s₀.Moves tokens s)
    (h : Lies tokens s s' span) (h₁ : s'.Moves tokens s₁) : Lies tokens s₀ s₁ span

section Places

variable {tokens : List Located} {s s₀ s₁ s' : Parsing} {span : Span}

theorem Enclosed.moves (h : Enclosed tokens s s₁) : s.Moves tokens s₁.advance := by
  rcases h.marks with ⟨hopen, hclose⟩ | ⟨hopen, hclose⟩
  · exact .trans (.take hopen) (.trans h.inner (.take hclose))
  · exact .enclose hopen h.inner fun _ => hclose

theorem Enclosed.isEnd (h : Enclosed tokens s s₁) : s.peek.isEnd = false := by
  rcases h.marks with ⟨hopen, -⟩ | ⟨hopen, -⟩
  · exact Token.isEnd_of_isPlain hopen
  · exact not_isEnd_of_mark hopen

/-- A token is where it was taken. -/
theorem Lies.token (hplain : s.peek.isPlain = true) (hspot : Spot tokens s.here) :
    Lies tokens s s.advance s.here := by
  have htaking : Taking tokens s s.advance := ⟨hplain, .stay, s.last_advance ▸ hspot⟩
  have hlast := Lies.last htaking
  rwa [last_advance] at hlast

namespace Lies

theorem spot (h : Lies tokens s s' span) : Spot tokens span := by
  induction h with
  | last h => exact h.last
  | enclosed h => exact .merge h.start h.stop
  | merge _ _ iha ihb => exact .merge iha ihb
  | widen _ _ _ ih => exact ih

theorem moves (h : Lies tokens s s' span) : s.Moves tokens s' := by
  induction h with
  | last h => exact .trans (.take h.plain) h.moves
  | enclosed h => exact h.moves
  | merge _ _ iha _ => exact iha
  | widen h₀ _ h₁ ih => exact .trans h₀ (.trans ih h₁)

/-- Where there is a place, a token was taken. -/
theorem ate (h : Lies tokens s s' span) : s.Ate s' := by
  induction h with
  | last h => exact ate_of_isPlain h.plain h.moves.takes
  | enclosed h => exact (ate_advance h.isEnd).before (h.inner.takes.trans (takes_advance _))
  | merge _ _ iha _ => exact iha
  | widen h₀ _ h₁ ih => exact (Ate.behind h₀.takes ih).before h₁.takes

theorem front (h₀ : s₀.Moves tokens s) (h : Lies tokens s s' span) : Lies tokens s₀ s' span :=
  .widen h₀ h .stay

theorem back (h : Lies tokens s s' span) (h₁ : s'.Moves tokens s₁) : Lies tokens s s₁ span :=
  .widen .stay h h₁

end Lies

end Places

/-! ## Expressions -/

/-- The value is that of one token. -/
inductive Value.Read (tokens : List Located) : Value → Prop
  | number {negative : Bool} {t : Token} {v : Value} (ht : t.Among tokens)
    (hv : Parse.number? negative t = .ok v) : Read tokens v
  | string {s : String} (ht : (Token.string s).Among tokens) : Read tokens (.string s)
  | bool (b : Bool) : Read tokens (.bool b)
  | selector {text : String} {s : Selector} (ht : (Token.selector text).Among tokens)
    (hs : Selector.parse? text = some s) : Read tokens (.selector s)
  | resource {text : String} (ht : (Token.resource text).Among tokens) :
    Read tokens (.resource (.ofText text))

/-- The name of a function that is called stands among the tokens. -/
def CallTarget.Read (tokens : List Located) : CallTarget → Prop
  | .here x => Named tokens x
  | .elsewhere id => ∃ text, (Token.resource text).Among tokens ∧ id = .ofText text

/-- The characters of a data path are those of names, digits, and the marks between them. -/
def PathText (tokens : List Located) (path : String) : Prop :=
  ∀ c ∈ path.toList, (∃ x, Named tokens x ∧ c ∈ x.toList) ∨ c.isDigit = true ∨ c ∈ ['[', ']', '.']

/-- The place around a span and an expression, if there is one. -/
def Span.around (span : Span) (e : Option Expr) : Span := (e.map (span.merge ·.span)).getD span

/-- The expression is made by reading, between two states.  Only an operand, for which the flag
stands, can be a cast. -/
inductive Expr.Made (tokens : List Located) : Bool → Parsing → Parsing → Expr → Prop
  | widen {b : Bool} {s₀ s s' s₁ : Parsing} {e : Expr} (h₀ : s₀.Moves tokens s)
    (h : Made tokens b s s' e) (h₁ : s'.Moves tokens s₁) : Made tokens b s₀ s₁ e
  | operand {s s' : Parsing} {e : Expr} (h : Made tokens false s s' e) : Made tokens true s s' e
  | cast {s s' : Parsing} {e : Expr} {c : Cast} {k : Kind} (h : Made tokens false s s' e)
    (hc : Kind.cast? e.kind k = some c) : Made tokens true s s' (e.casted (some c))
  | literal {b : Bool} {s s' : Parsing} {v : Value} {span : Span} (hv : v.Read tokens)
    (hspan : Lies tokens s s' span) : Made tokens b s s' (.ofValue v span)
  | item {b : Bool} {s s' : Parsing} {text : String} {data : Expr} {entries : List (String × Value)}
    {span : Span} (ht : (Token.resource text).Among tokens) (hdata : Made tokens false s s' data)
    (hconst : data.constant? = some (.compound entries)) (hspan : Lies tokens s s' span) :
    Made tokens b s s' (.ofValue (.item (.ofText text) (some entries)) span)
  | unresolved {b : Bool} {s s' : Parsing} {span : Span} (hspan : Lies tokens s s' span)
    (hfault : ¬ s'.Clean) : Made tokens b s s' (.unresolved span)
  | name {b : Bool} {s s' : Parsing} {x : String} {span : Span} (hx : Named tokens x)
    (hspan : Lies tokens s s' span) :
    Made tokens b s s' (.name ⟨(s.env x).getD .unresolved, span⟩ x)
  | variant {b : Bool} {s s' : Parsing} {enum x : String} {span : Span} (henum : Named tokens enum)
    (hx : Named tokens x) (hspan : Lies tokens s s' span) :
    Made tokens b s s' (.variant ⟨.enum enum, span⟩ enum x)
  | call {b : Bool} {s s' : Parsing} {target : CallTarget} {span : Span}
    (htarget : target.Read tokens) (hspan : Lies tokens s s' span) :
    Made tokens b s s' (.call ⟨.plain .void, span⟩ target)
  | binary {b : Bool} {s s' : Parsing} {op : BinaryOp} {l r : Expr} {res : Resolved}
    (hl : Made tokens false s s' l) (hr : Made tokens false s s' r) (hop : op.joins = true)
    (hres : resolveBinary? l.kind op r.kind = some res) :
    Made tokens b s s' (.binary ⟨.plain res.operation.result, l.span.merge r.span⟩ op
      (l.casted res.leftCast) (r.casted res.rightCast) (some res.operation))
  | failedBinary {b : Bool} {s s' : Parsing} {op : BinaryOp} {l r : Expr}
    (hl : Made tokens false s s' l) (hr : Made tokens false s s' r)
    (hfault : (l.isError = true ∨ r.isError = true) ∨ ¬ s'.Clean) :
    Made tokens b s s' (.binary ⟨.unresolved, l.span.merge r.span⟩ op l r none)
  | unary {b : Bool} {s s' : Parsing} {op : UnaryOp} {opSpan : Span} {e : Expr} {c : Option Cast}
    {o : UnaryOperation} (hop : Lies tokens s s' opSpan) (he : Made tokens false s s' e)
    (hres : resolveUnary? e.kind op = some (c, o)) :
    Made tokens b s s' (.unary ⟨.plain o.result, opSpan.merge e.span⟩ op (e.casted c) (some o))
  | failedUnary {b : Bool} {s s' : Parsing} {op : UnaryOp} {opSpan : Span} {e : Expr}
    (hop : Lies tokens s s' opSpan) (he : Made tokens false s s' e)
    (hfault : e.isError = true ∨ ¬ s'.Clean) :
    Made tokens b s s' (.unary ⟨.unresolved, opSpan.merge e.span⟩ op e none)
  | range {b : Bool} {s s' : Parsing} {min max : Option Expr} {dots : Span}
    (hdots : Lies tokens s s' dots) (hmin : ∀ e ∈ min, Made tokens true s s' e)
    (hmax : ∀ e ∈ max, Made tokens true s s' e) (hsome : min.isSome = true ∨ max.isSome = true)
    (hkinds : ∀ e, e ∈ min ∨ e ∈ max → e.kind = .int) :
    Made tokens b s s' (.range ⟨.plain .range, (dots.around min).around max⟩ min max)
  | failedRange {b : Bool} {s s' : Parsing} {min max : Option Expr} {dots : Span}
    (hdots : Lies tokens s s' dots) (hmin : ∀ e ∈ min, Made tokens true s s' e)
    (hmax : ∀ e ∈ max, Made tokens true s s' e) (hsome : min.isSome = true ∨ max.isSome = true)
    (hfault : (∃ e, (e ∈ min ∨ e ∈ max) ∧ e.isError = true) ∨ ¬ s'.Clean) :
    Made tokens b s s' (.range ⟨.unresolved, (dots.around min).around max⟩ min max)
  | list {b : Bool} {s s₁ s' : Parsing} {ty : Ty} {items : List Expr} (h : Enclosed tokens s s₁)
    (hitems : ∀ e ∈ items, Made tokens false s.advance s₁ e) (h' : s₁.advance.Moves tokens s')
    (hty : ty.kind = .list)
    (hkinds : (∀ e ∈ items, ∀ e' ∈ items, e.kind = e'.kind) ∨ (∃ e ∈ items, e.isError = true) ∨
      ¬ s'.Clean) :
    Made tokens b s s' (.list ⟨ty, s.here.merge s₁.here⟩ items)
  | compound {b : Bool} {s s₁ : Parsing} {entries : List (String × Expr)}
    (h : Enclosed tokens s s₁)
    (hentries : ∀ entry ∈ entries, Made tokens false s.advance s₁ entry.2) :
    Made tokens b s s₁.advance (.compound ⟨.plain .compound, s.here.merge s₁.here⟩ entries)
  | parenthesized {b : Bool} {s s₁ : Parsing} {e : Expr} (h : Enclosed tokens s s₁)
    (he : Made tokens b s.advance s₁ e) :
    Made tokens b s s₁.advance (e.moved (s.here.merge s₁.here))
  | extended {b : Bool} {s s₁ s' : Parsing} {e : Expr} (he : Made tokens b s s₁ e)
    (h : Taking tokens s₁ s') : Made tokens b s s' (e.moved (e.span.merge s'.last))
  | failed {b : Bool} {s s₁ s' : Parsing} {e : Expr} (he : Made tokens b s s₁ e)
    (h : Taking tokens s₁ s') (hfault : ¬ s'.Clean) :
    Made tokens b s s' (e.failed (e.span.merge s'.last))
  | member {b : Bool} {s s₁ s' : Parsing} {e : Expr} {x : String} {m : Member} {args : List Expr}
    (he : Made tokens false s s₁ e) (h : Taking tokens s₁ s') (hx : Named tokens x)
    (hm : Kind.member? e.kind x = some m) (hargs : ∀ a ∈ args, Made tokens true s₁.advance s' a) :
    Made tokens b s s' (.member ⟨.plain m.result, e.span.merge s'.last⟩ e x m args)
  | dataPath {b : Bool} {s s₁ s' : Parsing} {e : Expr} {path : String}
    (he : Made tokens false s s₁ e) (h : Taking tokens s₁ s') (hkind : e.kind = .selector)
    (hpath : PathText tokens path) :
    Made tokens b s s' (.dataPath ⟨.plain .data, e.span.merge s'.last⟩ e path)

namespace Expr

variable {tokens : List Located} {b : Bool} {s s₀ s₁ s' : Parsing} {e : Expr}

theorem span_casted (e : Expr) (c : Option Cast) : (e.casted c).span = e.span := by
  cases c <;> rfl

theorem span_withInfo (i : Info) (e : Expr) : (e.withInfo i).span = i.span := by
  rw [span, info_withInfo]

theorem lies_around {span : Span} (hspan : Lies tokens s s' span) {o : Option Expr}
    (ho : ∀ e ∈ o, Lies tokens s s' e.span) : Lies tokens s s' (span.around o) := by
  cases o with
  | none => exact hspan
  | some e => exact .merge hspan (ho e rfl)

namespace Made

theorem front (h₀ : s₀.Moves tokens s) (h : e.Made tokens b s s') : e.Made tokens b s₀ s' :=
  .widen h₀ h .stay

theorem back (h : e.Made tokens b s s') (h₁ : s'.Moves tokens s₁) : e.Made tokens b s s₁ :=
  .widen .stay h h₁

/-- **An expression has a place** between the two states. -/
theorem lies (h : e.Made tokens b s s') : Lies tokens s s' e.span := by
  induction h with
  | widen h₀ _ h₁ ih => exact .widen h₀ ih h₁
  | operand _ ih => exact ih
  | cast _ _ ih => exact ih
  | literal _ hspan | item _ _ _ hspan | unresolved hspan | name _ hspan | variant _ _ hspan
  | call _ hspan => exact hspan
  | binary _ _ _ _ ihl ihr | failedBinary _ _ _ ihl ihr => exact .merge ihl ihr
  | unary hop _ _ ih | failedUnary hop _ _ ih => exact .merge hop ih
  | range hdots _ _ _ _ ihmin ihmax | failedRange hdots _ _ _ _ ihmin ihmax =>
    exact lies_around (lies_around hdots ihmin) ihmax
  | list h _ h' => exact (Lies.enclosed h).back h'
  | compound h => exact .enclosed h
  | parenthesized h =>
    rw [moved, span_withInfo]
    exact .enclosed h
  | extended _ h ih =>
    rw [moved, span_withInfo]
    exact .merge (ih.back (Lies.last h).moves) ((Lies.last h).front ih.moves)
  | failed _ h _ ih =>
    rw [Expr.failed, span_withInfo]
    exact .merge (ih.back (Lies.last h).moves) ((Lies.last h).front ih.moves)
  | member _ h _ _ _ ih | dataPath _ h _ _ ih =>
    exact .merge (ih.back (Lies.last h).moves) ((Lies.last h).front ih.moves)

theorem moves (h : e.Made tokens b s s') : s.Moves tokens s' := h.lies.moves

theorem spot (h : e.Made tokens b s s') : Spot tokens e.span := h.lies.spot

theorem ate (h : e.Made tokens b s s') : s.Ate s' := h.lies.ate

end Made

end Expr

/-! ## Statements -/

/-- A name that is declared stands among the tokens. -/
structure Declared.Read (tokens : List Located) (x : Declared) : Prop where
  named : Named tokens x.name
  spot : Spot tokens x.span

/-- A value and the operator that stores it into a score. -/
inductive Storing (tokens : List Located) (op : BinaryOp) :
    Parsing → Parsing → Expr → Option Operation → Prop
  | resolved {s s' : Parsing} {e : Expr} {o : Operation} {c : Option Cast}
    (he : e.Made tokens false s s') (hres : resolveBinary? .score op e.kind = some ⟨o, none, c⟩) :
    Storing tokens op s s' (e.casted c) (some o)
  | failed {s s' : Parsing} {e : Expr} (he : e.Made tokens false s s')
    (hfault : e.isError = true ∨ ¬ s'.Clean) : Storing tokens op s s' e none

/-- A statement with no others inside is made by reading. -/
inductive Stmt.Leaf (tokens : List Located) : Parsing → Stmt → Parsing → Prop
  | letPlain {s s' : Parsing} {x : Declared} {e : Expr} (hplain : s.peek.isPlain = true)
    (hx : x.Read tokens) (he : e.Made tokens false s.advance s') :
    Leaf tokens s (.letBinding (s.here.merge e.span) x e) (s'.declare x.name e.ty)
  | letTyped {s s' : Parsing} {x : Declared} {e : Expr} {ty : Ty} (hplain : s.peek.isPlain = true)
    (hx : x.Read tokens) (he : e.Made tokens true s.advance s') (hty : ty.isError = false)
    (hkind : (e.isError = true ∨ e.kind = ty.kind) ∨ ¬ s'.Clean) :
    Leaf tokens s (.letBinding (s.here.merge e.span) x e) (s'.declare x.name ty)
  | varPlain {s s' : Parsing} {x : Declared} (hplain : s.peek.isPlain = true)
    (hx : x.Read tokens) (h : s.advance.Moves tokens s') :
    Leaf tokens s (.var (s.here.merge s'.last) x none none) (s'.declare x.name (.plain .score))
  | var {s s' : Parsing} {x : Declared} {e : Expr} {o : Option Operation}
    (hplain : s.peek.isPlain = true) (hx : x.Read tokens)
    (he : Storing tokens .assign s.advance s' e o) :
    Leaf tokens s (.var (s.here.merge s'.last) x (some e) o) (s'.declare x.name (.plain .score))
  | assign {s s' : Parsing} {target e : Expr} {op : BinaryOp} {o : Option Operation}
    (htarget : target.Made tokens false s s') (hkind : target.kind = .score)
    (he : Storing tokens op s s' e o) :
    Leaf tokens s (.assign (target.span.merge e.span) target op e o) s'
  | misassign {s s' : Parsing} {target e : Expr} {op : BinaryOp}
    (htarget : target.Made tokens false s s') (hkind : target.kind ≠ .score)
    (he : e.Made tokens false s s') :
    Leaf tokens s (.assign (target.span.merge e.span) target op e none) s'
  | expr {s s' : Parsing} {e : Expr} (he : e.Made tokens false s s') :
    Leaf tokens s (.expr e.span e) s'
  | enum {s s₁ s₂ : Parsing} {x : Declared} {variants : List String}
    (hplain : s.peek.isPlain = true) (hx : x.Read tokens) (h : s.advance.Moves tokens s₁)
    (hopen : s₁.peek = .mark .lbrace) (h' : s₁.advance.Moves tokens s₂)
    (hclose : Ended s₁.rest → s₂.peek = .mark .rbrace) :
    Leaf tokens s (.enum (s.here.merge s₂.here) x variants)
      { s₂.advance with enums := x.name :: s₂.advance.enums }
  | command {s s' : Parsing} {c : Command} (hplain : s.peek.isPlain = true)
    (h : s.advance.Moves tokens s') (hc : ∀ e ∈ c.operands, e.Made tokens true s.advance s') :
    Leaf tokens s (.command (s.here.merge s'.last) c) s'
  | return {s : Parsing} (hplain : s.peek.isPlain = true) : Leaf tokens s (.return s.here) s.advance

/-- From the state `s`, a statement inside another is read from `u` to `u'`, and reading goes on
from `s'`: in a scope of its own, or as a block, which has one already. -/
inductive Nests : Parsing → Parsing → Parsing → Parsing → Prop
  | same {s s' : Parsing} (h : s'.scopes = s.scopes) : Nests s s s' s'
  | scope {s u : Parsing} : Nests s s.enterScope u u.leaveScope

/-- The statements are made by reading, one after the other.  The flag says whether they stand
inside another statement. -/
inductive BodyMade (tokens : List Located) : Bool → Parsing → List Stmt → Parsing → Prop
  | moves {n : Bool} {s s' : Parsing} (h : s.Moves tokens s') : BodyMade tokens n s [] s'
  | append {n : Bool} {s s₁ s' : Parsing} {ts us : List Stmt} (h : BodyMade tokens n s ts s₁)
    (h' : BodyMade tokens n s₁ us s') : BodyMade tokens n s (ts ++ us) s'
  | leaf {n : Bool} {s s' : Parsing} {t : Stmt} (h : t.Leaf tokens s s') :
    BodyMade tokens n s [t] s'
  | block {n : Bool} {s u : Parsing} {ts : List Stmt} (hopen : s.peek = .mark .lbrace)
    (h : BodyMade tokens true s.advance.enterScope ts u) (hclose : u.peek = .mark .rbrace) :
    BodyMade tokens n s [.block (s.here.merge u.here) ts] u.leaveScope.advance
  | ifThen {n : Bool} {s s₁ u u' s' : Parsing} {e : Expr} {t : Stmt}
    (hplain : s.peek.isPlain = true) (he : e.Made tokens false s.advance s₁)
    (hn : Nests s₁ u u' s') (ht : BodyMade tokens true u [t] u') :
    BodyMade tokens n s [.ifElse (s.here.merge s'.last) (Parse.asCondition e) t none] s'
  | ifElse {n : Bool} {s s₁ u u' s₂ s₃ v v' s' : Parsing} {e : Expr} {t t' : Stmt}
    (hplain : s.peek.isPlain = true) (he : e.Made tokens false s.advance s₁)
    (hn : Nests s₁ u u' s₂) (ht : BodyMade tokens true u [t] u') (helse : s₂.peek.isPlain = true)
    (h : s₂.advance.Moves tokens s₃) (hn' : Nests s₃ v v' s')
    (ht' : BodyMade tokens true v [t'] v') :
    BodyMade tokens n s [.ifElse (s.here.merge s'.last) (Parse.asCondition e) t (some t')] s'
  | while {n : Bool} {s s₁ u u' s' : Parsing} {e : Expr} {t : Stmt}
    (hplain : s.peek.isPlain = true) (he : e.Made tokens false s.advance s₁)
    (hn : Nests s₁ u u' s') (ht : BodyMade tokens true u [t] u') :
    BodyMade tokens n s [.while (s.here.merge s'.last) (Parse.asCondition e) t] s'
  | context {n : Bool} {s s₁ u u' s' : Parsing} {kind : ContextKind} {e : Expr} {t : Stmt}
    (hplain : s.peek.isPlain = true) (he : e.Made tokens true s.advance s₁)
    (hn : Nests s₁ u u' s') (ht : BodyMade tokens true u [t] u') :
    BodyMade tokens n s [.context (s.here.merge s'.last) kind e t] s'
  | function {s s₁ u : Parsing} {x : Declared} {notes : List Annotation} {ts : List Stmt}
    (hplain : s.peek.isPlain = true) (hx : x.Read tokens) (hnotes : ∀ a ∈ notes, Spot tokens a.span)
    (h : s.advance.Moves tokens s₁) (hopen : s₁.peek = .mark .lbrace)
    (hbody : BodyMade tokens true s₁.advance.enterScope ts u) (hclose : u.peek = .mark .rbrace) :
    BodyMade tokens false s [.function (s.here.merge (s₁.here.merge u.here)) x notes ts]
      u.leaveScope.advance
  | error {n : Bool} {s s₁ : Parsing} {d : Diagnostic} (hbrace : s.peek.isMark .rbrace = false)
    (hend : s.peek.isEnd = false) (h : Passage tokens .block s (some d) s₁) :
    BodyMade tokens n s [.error (s.here.merge (s₁.complain d.issue d.span).recover.last)]
      (s₁.complain d.issue d.span).recover

/-- The statements of a script are made by reading, all of them with the same flag.  A brace that
closes nothing is reported. -/
inductive ScriptMade (tokens : List Located) (n : Bool) : Parsing → List Stmt → Parsing → Prop
  | stop {s s' : Parsing} {ts : List Stmt} (h : BodyMade tokens n s ts s') :
    ScriptMade tokens n s ts s'
  | step {s s₁ s' : Parsing} {ts us : List Stmt} (h : BodyMade tokens n s ts s₁)
    (hpeek : s₁.peek = .mark .rbrace)
    (h' : ScriptMade tokens n (s₁.advance.complain .unmatchedBrace s₁.here) us s') :
    ScriptMade tokens n s (ts ++ us) s'

section Statements

variable {tokens : List Located} {n : Bool} {s s₁ u u' s' : Parsing} {t : Stmt} {ts : List Stmt}

theorem Storing.moves {op : BinaryOp} {e : Expr} {o : Option Operation}
    (h : Storing tokens op s s' e o) : s.Moves tokens s' := by
  cases h with
  | resolved he _ | failed he _ => exact he.moves

theorem Stmt.Leaf.passage (h : t.Leaf tokens s s') : Passage tokens .leaf s none s' := by
  cases h with
  | letPlain hplain _ he | letTyped hplain _ he _ _ =>
    exact .trans (.take hplain) (.trans he.moves.lift (.declare trivial _ _))
  | varPlain hplain _ h => exact .trans (.take hplain) (.trans h.lift (.declare trivial _ _))
  | var hplain _ he => exact .trans (.take hplain) (.trans he.moves.lift (.declare trivial _ _))
  | assign htarget | misassign htarget | expr htarget => exact htarget.moves.lift
  | enum hplain _ h hopen h' hclose =>
    refine .trans (.take hplain) (.trans h.lift (.trans ?_ (.enum trivial _)))
    exact .enclose hopen h'.lift hclose
  | command hplain h _ => exact .trans (.take hplain) h.lift
  | «return» hplain => exact .take hplain

theorem Stmt.Leaf.ate (h : t.Leaf tokens s s') : s.Ate s' := by
  cases h with
  | letPlain hplain _ he | letTyped hplain _ he _ _ =>
    exact ate_of_isPlain hplain (he.moves.takes.trans (takes_declare _ _ _))
  | varPlain hplain _ h => exact ate_of_isPlain hplain (h.takes.trans (takes_declare _ _ _))
  | var hplain _ he => exact ate_of_isPlain hplain (he.moves.takes.trans (takes_declare _ _ _))
  | assign htarget | misassign htarget | expr htarget => exact htarget.ate
  | enum hplain _ h hopen h' hclose =>
    have henclose := (Passage.enclose hopen h' hclose).takes
    exact ate_of_isPlain hplain (h.takes.trans (henclose.trans (takes_enum _ _)))
  | command hplain h _ => exact ate_of_isPlain hplain h.takes
  | «return» hplain => exact ate_of_isPlain hplain (.refl _)

theorem Nests.passage (h : Nests s u u' s') {o : Manner} (hu : Passage tokens o u none u') :
    Passage tokens o s none s' := by
  cases h with
  | same => exact hu
  | scope => exact .scope hu

/-- A line that begins with neither the end nor a closing brace is passed over, at least in part. -/
theorem Parsing.ate_recover (hbrace : s.peek.isMark .rbrace = false) (hend : s.peek.isEnd = false) :
    s.Ate s.recover := by
  intro hs
  obtain ⟨t, v, us, hrest, hpeek⟩ := rest_of_not_isEnd hs hend
  rw [hpeek] at hbrace hend
  change (skipLine 0 s.last s.rest).2.length < s.rest.length
  rw [hrest]
  rcases skipLine_cases 0 s.last t v us with ⟨hstay, -⟩ | heq | ⟨depth, heq⟩
  · simp [hbrace, hend] at hstay
  · rw [heq]
    exact Nat.lt_succ_self _
  · rw [heq]
    exact Nat.lt_succ_of_le (skipLine_spec depth t.span (v :: us)).1.length_le

/-- Where reading goes on behind a statement that is given up, its first token has been taken. -/
theorem Parsing.Takes.ate_recover (h : s.Takes s₁) (hbrace : s.peek.isMark .rbrace = false)
    (hend : s.peek.isEnd = false) : s.Ate s₁.recover := by
  intro hs
  rcases Nat.lt_or_ge s₁.rest.length s.rest.length with hless | hmore
  · exact Nat.lt_of_le_of_lt (takes_recover s₁).length hless
  · -- nothing was taken, so the line begins as the statement did
    have hrest : s₁.rest = s.rest := h.rest.eq_of_length_le hmore
    have hpeek : s₁.peek = s.peek := peek_eq hrest
    have hate := Parsing.ate_recover (hpeek ▸ hbrace) (hpeek ▸ hend)
    exact Nat.lt_of_lt_of_le (hate (hrest ▸ hs)) h.length

namespace BodyMade

/-- **The way** from the first statement to the last one. -/
theorem passage (h : BodyMade tokens n s ts s') : Passage tokens .block s none s' := by
  induction h with
  | moves h => exact h.lift
  | append _ _ ih ih' => exact .trans ih ih'
  | leaf h => exact h.passage.mono Manner.leaf_within
  | block hopen _ hclose ih => exact .enclose hopen (.scope ih) fun _ => hclose
  | ifThen hplain he hn _ ih | «while» hplain he hn _ ih | context hplain he hn _ ih =>
    exact .trans (.take hplain) (.trans he.moves.lift (hn.passage ih))
  | ifElse hplain he hn _ helse h hn' _ ih ih' =>
    refine .trans (.take hplain) (.trans he.moves.lift (.trans (hn.passage ih) ?_))
    exact .trans (.take helse) (.trans h.lift (hn'.passage ih'))
  | function hplain _ _ h hopen _ hclose ih =>
    exact .trans (.take hplain) (.trans h.lift (.enclose hopen (.scope ih) fun _ => hclose))
  | error _ _ h => exact .trans (.giveUp trivial h) .recover

theorem takes (h : BodyMade tokens n s ts s') : s.Takes s' := h.passage.takes

/-- **A statement takes a token**, also one that is given up. -/
theorem ate (h : BodyMade tokens n s ts s') (hts : ts ≠ []) : s.Ate s' := by
  induction h with
  | moves => exact absurd rfl hts
  | @append n s s₁ s' ts us h h' ih ih' =>
    by_cases hnil : ts = []
    · refine Ate.behind h.takes (ih' fun hus => hts ?_)
      rw [hnil, hus]
      rfl
    · exact (ih hnil).before h'.takes
  | leaf h => exact h.ate
  | block hopen h _ =>
    refine (ate_advance (not_isEnd_of_mark hopen)).before ?_
    exact (Takes.leaveScope h.takes).trans (takes_advance _)
  | ifThen hs he hn ht | «while» hs he hn ht | context hs he hn ht =>
    exact ate_of_isPlain hs (he.moves.takes.trans (hn.passage ht.passage).takes)
  | ifElse hs he hn ht _ h hn' ht' =>
    refine ate_of_isPlain hs (he.moves.takes.trans ((hn.passage ht.passage).takes.trans ?_))
    exact (takes_advance _).trans (h.takes.trans (hn'.passage ht'.passage).takes)
  | function hs _ _ h _ hbody _ =>
    refine ate_of_isPlain hs (h.takes.trans ((takes_advance _).trans ?_))
    exact (Takes.leaveScope hbody.takes).trans (takes_advance _)
  | error hbrace hend h => exact (h.takes.trans (takes_complain _ _ _)).ate_recover hbrace hend

/-- What is declared in braces is gone behind them. -/
theorem scopes (h : BodyMade tokens n s.advance.enterScope ts u) :
    u.leaveScope.advance.scopes = s.scopes := by
  rw [scopes_advance, scopes_leaveScope h.takes, scopes_advance]

theorem front (h : s.Moves tokens s₁) (h' : BodyMade tokens n s₁ ts s') :
    BodyMade tokens n s ts s' :=
  .append (.moves h) h'

theorem back (h : BodyMade tokens n s ts s₁) (h' : s₁.Moves tokens s') :
    BodyMade tokens n s ts s' := by
  have hback := BodyMade.append h (.moves h')
  rwa [List.append_nil] at hback

end BodyMade

theorem ScriptMade.takes (h : ScriptMade tokens n s ts s') : s.Takes s' := by
  induction h with
  | stop h => exact h.takes
  | step h _ _ ih =>
    exact h.takes.trans ((takes_advance _).trans ((takes_complain _ _ _).trans ih))

end Statements

end Packwright
