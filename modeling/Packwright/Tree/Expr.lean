import Packwright.Operator.Table
import Packwright.Source.Span
import Packwright.Value.Basic

/-!
# Expressions

Every node of an expression knows its type and its place.  Operators, casts and members are resolved
when the tree is built, so that generation looks nothing up.
-/

namespace Packwright

/-- What every node of an expression knows. -/
structure Info where
  ty : Ty
  span : Span
  deriving DecidableEq, Repr, Inhabited

/-- The function that a call names. -/
inductive CallTarget where
  /-- One of the namespace that is being compiled. -/
  | here (name : String)
  | elsewhere (id : ResourceId)
  deriving DecidableEq, Repr

/-- The id that a call names when it stands in a space. -/
def CallTarget.resolve (space : String) : CallTarget → ResourceId
  | here name => ⟨space, name⟩
  | elsewhere id => id

/-- Expressions.  An operator without an operation could not be resolved. -/
inductive Expr where
  | literal (info : Info) (value : Value)
  | name (info : Info) (name : String)
  | binary (info : Info) (op : BinaryOp) (left right : Expr) (operation : Option Operation)
  | unary (info : Info) (op : UnaryOp) (operand : Expr) (operation : Option UnaryOperation)
  | cast (info : Info) (inner : Expr) (cast : Cast)
  | range (info : Info) (min max : Option Expr)
  | list (info : Info) (items : List Expr)
  | compound (info : Info) (entries : List (String × Expr))
  | member (info : Info) (object : Expr) (name : String) (member : Member) (args : List Expr)
  | dataPath (info : Info) (object : Expr) (path : String)
  | variant (info : Info) (enum name : String)
  | call (info : Info) (target : CallTarget)
  | error (info : Info)
  deriving Inhabited

namespace Expr

/-- What a node knows. -/
def info : Expr → Info
  | literal i _ | name i _ | binary i _ _ _ _ | unary i _ _ _ | cast i _ _ | range i _ _ | list i _
  | compound i _ | member i _ _ _ _ | dataPath i _ _ | variant i _ _ | call i _ | error i => i

/-- The same node, knowing something else. -/
def withInfo (i : Info) : Expr → Expr
  | literal _ v => literal i v
  | name _ n => name i n
  | binary _ op l r o => binary i op l r o
  | unary _ op e o => unary i op e o
  | cast _ e c => cast i e c
  | range _ l h => range i l h
  | list _ es => list i es
  | compound _ es => compound i es
  | member _ e n m as => member i e n m as
  | dataPath _ e p => dataPath i e p
  | variant _ e n => variant i e n
  | call _ t => call i t
  | error _ => error i

/-- The type of an expression. -/
def ty (e : Expr) : Ty := e.info.ty

/-- The kind of an expression. -/
def kind (e : Expr) : Kind := e.info.ty.kind

/-- The place of an expression. -/
def span (e : Expr) : Span := e.info.span

/-- Whether the expression could not be given a type. -/
def isError (e : Expr) : Bool := e.info.ty.isError

/-- The same expression at another place. -/
def moved (e : Expr) (span : Span) : Expr := e.withInfo ⟨e.info.ty, span⟩

/-- The same expression at another place, without a type. -/
def failed (e : Expr) (span : Span) : Expr := e.withInfo ⟨.unresolved, span⟩

/-- A literal. -/
def ofValue (v : Value) (span : Span) : Expr := literal ⟨.plain v.kind, span⟩ v

/-- An expression that could not be read. -/
def unresolved (span : Span) : Expr := error ⟨.unresolved, span⟩

/-- The expression under a cast, if one is needed. -/
def casted (e : Expr) : Option Cast → Expr
  | some c => cast ⟨.plain c.target, e.span⟩ e c
  | none => e

/-- The expression below all casts. -/
def withoutCasts : Expr → Expr
  | cast _ inner _ => withoutCasts inner
  | e => e

mutual

/-- The value of an expression made of literals. -/
def constant? : Expr → Option Value
  | literal _ v => some v
  | list _ es => (constants? es).map Value.list
  | compound _ es => (constantEntries? es).map fun entries => .compound (Table.ofPairs entries)
  | range _ l h =>
    match constantBound? l, constantBound? h with
    | some min, some max => some (.range ⟨min, max⟩)
    | _, _ => none
  | _ => none

/-- The values of several expressions made of literals. -/
def constants? : List Expr → Option (List Value)
  | [] => some []
  | e :: es =>
    match constant? e, constants? es with
    | some v, some vs => some (v :: vs)
    | _, _ => none

/-- The values of entries made of literals. -/
def constantEntries? : List (String × Expr) → Option (List (String × Value))
  | [] => some []
  | (key, e) :: es =>
    match constant? e, constantEntries? es with
    | some v, some vs => some ((key, v) :: vs)
    | _, _ => none

/-- The value of a bound of a range; an absent bound has the value of being absent. -/
def constantBound? : Option Expr → Option (Option Amount)
  | none => some none
  | some e =>
    match constant? e with
    | some (.integer .int n) => some (some n)
    | _ => none

end

end Expr

end Packwright
