import Packwright.Proofs.Core.Language
import Mathlib.Data.Set.Insert

/-!
# Resolved trees of the core

The trees that generation gets for the core: every operator is resolved for the kinds of its
operands, casts stand where the kinds ask for them, and every name is that of a variable.

* `NumberTree V e a k`: the expression `e` is the number `a`, of the kind `int` if it is constant
  and of the kind `score` else.
* `TruthTree V e c k`: the expression `e` is the condition `c`, of the kind `bool` or `condition`.
* `StmtTree V s t V'`: the statement `s` is the core statement `t`.  `V` are the names of variables
  before it, `V'` those behind it.
-/

namespace Packwright.Core

open Words

variable (V : Set String)

/-- The expression is a number. -/
inductive NumberTree : Expr → Number → Kind → Prop
  | literal (i : Info) (n : Amount) :
    NumberTree (.literal i (.integer .int n)) (.literal n) .int
  | variable (i : Info) {x : String} (hx : x ∈ V) : NumberTree (.name i x) (.variable x) .score
  | fold {i : Info} {op : Arith} {l r : Expr} {a b : Number} {o : Operation}
    (hl : NumberTree l a .int) (hr : NumberTree r b .int) (ho : o.rule = .fold op) :
    NumberTree (.binary i (.arith op) l r (some o)) (.arith op a b) .int
  | scoreArith {i : Info} {op : Arith} {l r : Expr} {a b : Number} {k : Kind} {o : Operation}
    (hl : NumberTree l a .score) (hr : NumberTree r b k) (ho : o.rule = .scoreArith op) :
    NumberTree (.binary i (.arith op) l r (some o)) (.arith op a b) .score
  | arithWithScore {i : Info} {op : Arith} {l r : Expr} {a b : Number} {o : Operation}
    (hop : op = .add ∨ op = .mul) (hl : NumberTree l a .int) (hr : NumberTree r b .score)
    (ho : o.rule = .arithWithScore op) :
    NumberTree (.binary i (.arith op) l r (some o)) (.arith op a b) .score
  | negate {i : Info} {e : Expr} {a : Number} {o : UnaryOperation} (he : NumberTree e a .int)
    (ho : o.rule = .negate) : NumberTree (.unary i .neg e (some o)) (.negate a) .int
  | negateScore {i : Info} {e : Expr} {a : Number} {o : UnaryOperation}
    (he : NumberTree e a .score) (ho : o.rule = .negateScore) :
    NumberTree (.unary i .neg e (some o)) (.negate a) .score
  | toScore {i : Info} {e : Expr} {a : Number} {c : Cast} (he : NumberTree e a .int)
    (hc : c.target = .score) : NumberTree (.cast i e c) a .score

/-- The expression is a condition. -/
inductive TruthTree : Expr → Truth → Kind → Prop
  | constant (i : Info) (b : Bool) : TruthTree (.literal i (.bool b)) (.constant b) .bool
  | toCondition {i : Info} {e : Expr} {t : Truth} {c : Cast} (he : TruthTree e t .bool)
    (hc : c.target = .condition) : TruthTree (.cast i e c) t .condition
  | variable {i i' : Info} {x : String} {c : Cast} (hx : x ∈ V) (hc : c.target = .condition) :
    TruthTree (.cast i (.name i' x) c) (.variable x) .condition
  | relateConstants {i : Info} {r : Relation} {e e' : Expr} {a b : Number} {o : Operation}
    (hl : NumberTree V e a .int) (hr : NumberTree V e' b .int) (ho : o.rule = .decide r) :
    TruthTree (.binary i (.relate r) e e' (some o)) (.relate r a b) .bool
  | compareScore {i : Info} {r : Relation} {e e' : Expr} {a b : Number} {k : Kind} {o : Operation}
    (hl : NumberTree V e a .score) (hr : NumberTree V e' b k) (ho : o.rule = .compareScore r) :
    TruthTree (.binary i (.relate r) e e' (some o)) (.relate r a b) .condition
  | compareWithScore {i : Info} {r : Relation} {e e' : Expr} {a b : Number} {o : Operation}
    (hl : NumberTree V e a .int) (hr : NumberTree V e' b .score)
    (ho : o.rule = .compareWithScore r) :
    TruthTree (.binary i (.relate r) e e' (some o)) (.relate r a b) .condition
  | rangeHas {i : Info} {e e' : Expr} {a : Number} {range : Range} {o : Operation}
    (hl : NumberTree V e a .int) (hr : e'.range? = some range) (ho : o.rule = .rangeHas) :
    TruthTree (.binary i .within e e' (some o)) (.within a range) .bool
  | scoreWithin {i : Info} {e e' : Expr} {a : Number} {range : Range} {o : Operation}
    (hl : NumberTree V e a .score) (hr : e'.range? = some range) (ho : o.rule = .scoreWithin) :
    TruthTree (.binary i .within e e' (some o)) (.within a range) .condition
  | both {i : Info} {e e' : Expr} {s t : Truth} {o : Operation} (hl : TruthTree e s .bool)
    (hr : TruthTree e' t .bool) (ho : o.rule = .both) :
    TruthTree (.binary i .and e e' (some o)) (.both s t) .bool
  | either {i : Info} {e e' : Expr} {s t : Truth} {o : Operation} (hl : TruthTree e s .bool)
    (hr : TruthTree e' t .bool) (ho : o.rule = .either) :
    TruthTree (.binary i .or e e' (some o)) (.either s t) .bool
  | conjoin {i : Info} {e e' : Expr} {s t : Truth} {k k' : Kind} {o : Operation}
    (hl : TruthTree e s k) (hr : TruthTree e' t k') (ho : o.rule = .conjoin) :
    TruthTree (.binary i .and e e' (some o)) (.both s t) .condition
  | disjoin {i : Info} {e e' : Expr} {s t : Truth} {k k' : Kind} {o : Operation}
    (hl : TruthTree e s k) (hr : TruthTree e' t k') (ho : o.rule = .disjoin) :
    TruthTree (.binary i .or e e' (some o)) (.either s t) .condition
  | invert {i : Info} {e : Expr} {t : Truth} {k : Kind} {o : UnaryOperation}
    (he : TruthTree e t k) (ho : o.rule = .invert) :
    TruthTree (.unary i .not e (some o)) (.opposite t) k

/-- The expression is an operand. -/
inductive OperandTree : Expr → Operand → Prop
  | number {e : Expr} {a : Number} {k : Kind} (h : NumberTree V e a k) : OperandTree e (.number a)
  | truth {e : Expr} {t : Truth} {k : Kind} (h : TruthTree V e t k) : OperandTree e (.truth t)

mutual

/-- The statement is one of the core. -/
inductive StmtTree : Set String → Stmt → Statement → Set String → Prop
  | declare {V : Set String} {span : Span} {declared : Declared} {e : Expr} {t : Operand}
    {o : Operation} (hname : ∀ c ∈ declared.name.toList, isInner c = true) (he : OperandTree V e t)
    (ho : o.rule = .store) :
    StmtTree V (.var span declared (some e) (some o)) (.declare declared.name t)
      (insert declared.name V)
  | assign {V : Set String} {span : Span} {i : Info} {x : String} {e : Expr} {t : Operand}
    {o : Operation} (hx : x ∈ V) (he : OperandTree V e t) (ho : o.rule = .store) :
    StmtTree V (.assign span (.name i x) .assign e (some o)) (.assign x t) V
  | update {V : Set String} {span : Span} {i : Info} {x : String} {op : Arith} {e : Expr}
    {a : Number} {k : Kind} {o : Operation} (hx : x ∈ V) (he : NumberTree V e a k)
    (ho : o.rule = .modify op) :
    StmtTree V (.assign span (.name i x) (.update op) e (some o)) (.update x op a) V
  | block {V V' : Set String} {span : Span} {body : List Stmt} {ts : List Statement}
    (h : StmtTrees V body ts V') : StmtTree V (.block span body) (.block ts) V
  | ifThen {V V' : Set String} {span : Span} {e : Expr} {c : Truth} {k : Kind} {s : Stmt}
    {t : Statement} (he : TruthTree V e c k) (ht : StmtTree V s t V') :
    StmtTree V (.ifElse span e s none) (.ifElse c t none) V
  | ifElse {V V₁ V₂ : Set String} {span : Span} {e : Expr} {c : Truth} {k : Kind} {s s' : Stmt}
    {t t' : Statement} (he : TruthTree V e c k) (ht : StmtTree V s t V₁)
    (ht' : StmtTree V s' t' V₂) :
    StmtTree V (.ifElse span e s (some s')) (.ifElse c t (some t')) V
  | while {V V' : Set String} {span : Span} {e : Expr} {c : Truth} {k : Kind} {s : Stmt}
    {t : Statement} (he : TruthTree V e c k) (ht : StmtTree V s t V') :
    StmtTree V (.while span e s) (.while c t) V
  | say {V : Set String} {span : Span} {i : Info} {text : String} (h : IsPlain text) :
    StmtTree V (.command span (.say (.literal i (.string text)))) (.say text) V

/-- The statements are some of the core. -/
inductive StmtTrees : Set String → List Stmt → List Statement → Set String → Prop
  | nil (V : Set String) : StmtTrees V [] [] V
  | cons {V V₁ V₂ : Set String} {s : Stmt} {t : Statement} {ss : List Stmt} {ts : List Statement}
    (h : StmtTree V s t V₁) (h' : StmtTrees V₁ ss ts V₂) : StmtTrees V (s :: ss) (t :: ts) V₂

end

end Packwright.Core
