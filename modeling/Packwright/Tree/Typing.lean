import Packwright.Tree.Parsing

/-!
# Giving types to expressions

Operators are resolved against the kinds of their operands as soon as these are known, and the casts
they need become nodes of the tree.  What cannot be resolved is reported once: an operand without a
type makes the whole expression one without a type, and says nothing more.
-/

namespace Packwright

namespace Parse

/-- The value of a number token with the given sign. -/
def number? (negative : Bool) : Token → Except Kind Value
  | .integer w n =>
    match Word.ofInt? w (if negative then -(n : Int) else n) with
    | some v => .ok (.integer w v)
    | none => .error w.kind
  | .single v => .ok (.float (if negative then -v else v))
  | .double v => .ok (.double (if negative then -v else v))
  | _ => .error .error

/-- The literal of a number token; one that is out of range is reported. -/
def numberLiteral (negative : Bool) (token : Token) (span : Span) : Parse Expr := do
  match number? negative token with
  | .ok v => return .ofValue v span
  | .error kind =>
    complain (.literalOutOfRange kind) span
    return .unresolved span

/-- The expression as one of the expected type, cast where a cast exists. -/
def coerce (e : Expr) (expected : Ty) : Parse Expr := do
  if e.isError || expected.isError then return e
  if e.kind = expected.kind then
    if let some m := expected.mismatch? e.ty then complain (.mismatch m) e.span
    return e
  match Kind.cast? e.kind expected.kind with
  | some c => return e.casted (some c)
  | none =>
    complain (.expectedType expected e.ty) e.span
    return e

/-- The expression as a condition, where it can be cast to one. -/
def asCondition (e : Expr) : Expr :=
  if e.isError || e.kind = .condition then e else e.casted (Kind.cast? e.kind .condition)

/-- The value of an assignment, cast for its operator, and the operator. -/
def assignment (target : Ty) (op : BinaryOp) (value : Expr) (opSpan : Span) :
    Parse (Expr × Option Operation) := do
  if target.isError || value.isError then return (value, none)
  match resolveBinary? target.kind op value.kind with
  | some ⟨operation, none, rightCast⟩ => return (value.casted rightCast, some operation)
  | _ =>
    complain (.cannotApply op target value.ty) opSpan
    return (value, none)

/-- An operator between two expressions. -/
def binary (op : BinaryOp) (opSpan : Span) (left right : Expr) : Parse Expr := do
  let span := left.span.merge right.span
  let failed := Expr.binary ⟨.unresolved, span⟩ op left right none
  if left.isError || right.isError then return failed
  match resolveBinary? left.kind op right.kind with
  | none =>
    complain (.noBinaryOperator op left.ty right.ty) opSpan
    return failed
  | some resolved =>
    let differ : Option (String × String) :=
      match left.ty, right.ty with
      | .enum l, .enum r => if l = r then none else some (l, r)
      | _, _ => none
    match differ with
    | some (l, r) =>
      complain (.enumsDiffer l r) opSpan
      return failed
    | none =>
      return .binary ⟨.plain resolved.operation.result, span⟩ op (left.casted resolved.leftCast)
        (right.casted resolved.rightCast) (some resolved.operation)

/-- An operator in front of an expression. -/
def unary (op : UnaryOp) (opSpan : Span) (operand : Expr) : Parse Expr := do
  let span := opSpan.merge operand.span
  let failed := Expr.unary ⟨.unresolved, span⟩ op operand none
  if operand.isError then return failed
  match resolveUnary? operand.kind op with
  | some (c, operation) =>
    return .unary ⟨.plain operation.result, span⟩ op (operand.casted c) (some operation)
  | none =>
    complain (.noUnaryOperator op operand.ty) opSpan
    return failed

/-- A bound of a range, and whether it is a number. -/
def rangeBound : Option Expr → Parse (Option Expr × Bool)
  | none => return (none, true)
  | some e => do
    if e.isError then return (some e, false)
    if e.kind = .int then return (some e, true)
    match Kind.cast? e.kind .int with
    | some c => return (some (e.casted (some c)), true)
    | none =>
      complain (.rangeBound e.ty) e.span
      return (some e, false)

/-- A range with the given bounds around its dots. -/
def range (min max : Option Expr) (dots : Span) : Parse Expr := do
  let cover (span : Span) (e : Option Expr) : Span := (e.map (span.merge ·.span)).getD span
  let span := cover (cover dots min) max
  let (min, minValid) ← rangeBound min
  let (max, maxValid) ← rangeBound max
  return .range ⟨if minValid && maxValid then .plain .range else .unresolved, span⟩ min max

/-- A list of expressions. -/
def listOf (items : List Expr) (span : Span) : Parse Expr := do
  let element := items.head?.map (·.kind)
  let uniform := items.all fun e => some e.kind = element
  if !uniform && !items.any (·.isError) then complain .listElementsDiffer span
  return .list ⟨.list (if uniform then element else none) (some items.length), span⟩ items

/-- The expressions, each as one of the kind at its place. -/
def coerceAll : List Kind → List Expr → Parse (List Expr)
  | k :: ks, e :: es => do
    let e ← coerce e (.plain k)
    return e :: (← coerceAll ks es)
  | _, _ => return []

/-- A member of an expression, called with arguments if there are any. -/
def memberOf (object : Expr) (name : Declared) (args : Option (List Expr)) : Parse Expr := do
  let span := object.span.merge (← last)
  if object.isError then return object.moved span
  match Kind.member? object.kind name.name with
  | none =>
    complain (.noMember name.name object.ty) name.span
    modify (·.suggest name.span object.kind.memberNames)
    return object.failed span
  | some m =>
    match m.params, args with
    | none, none => return .member ⟨.plain m.result, span⟩ object name.name m []
    | some params, some args =>
      if params.length = args.length then
        let args ← coerceAll params args
        return .member ⟨.plain m.result, span⟩ object name.name m args
      else
        complain (.argumentCount name.name params.length args.length) name.span
        return object.failed span
    | none, some _ =>
      complain (.notAMethod name.name) name.span
      return object.failed span
    | some _, none =>
      complain (.methodNotCalled name.name) name.span
      return object.failed span

end Parse

end Packwright
