import Packwright.Operator.Symbol
import Packwright.Value.Kind

/-!
# Operator, cast and member tables

For every kind the operators whose left operand it is, the operators in front of it, the casts into
it and its members.  An entry carries the kinds that the type checker uses and the rule that the
generator follows.
-/

namespace Packwright

/-- What an operator between two operands does. -/
inductive BinaryRule where
  /-- Arithmetic on two constants. -/
  | fold (op : Arith)
  /-- A relation between two constants. -/
  | decide (relation : Relation)
  /-- The texts of two constants, joined. -/
  | concat
  | both
  | either
  /-- Membership of a constant in a range. -/
  | rangeHas
  /-- Conjunction of conditions. -/
  | conjoin
  /-- Disjunction of conditions. -/
  | disjoin
  /-- A relation of a score to a number or a score. -/
  | compareScore (relation : Relation)
  /-- A relation of a number to a score. -/
  | compareWithScore (relation : Relation)
  /-- Membership of a score in a range. -/
  | scoreWithin
  /-- Arithmetic on a score and a number or a score, into a fresh score. -/
  | scoreArith (op : Arith)
  /-- Arithmetic on a number and a score, into a fresh score. -/
  | arithWithScore (op : Arith)
  /-- Storing into a score. -/
  | store
  /-- Arithmetic on a score in its place. -/
  | modify (op : Arith)
  deriving DecidableEq, Repr

/-- An operator of a kind: the kind of its right operand, the kind of its result and its rule. -/
structure Operation where
  op : BinaryOp
  right : Kind
  result : Kind
  rule : BinaryRule
  deriving DecidableEq, Repr

/-- What an operator in front of an operand does. -/
inductive UnaryRule where
  | negate
  | invert
  | negateScore
  deriving DecidableEq, Repr

/-- An operator in front of a kind. -/
structure UnaryOperation where
  op : UnaryOp
  result : Kind
  rule : UnaryRule
  deriving DecidableEq, Repr

/-- A conversion that is made without being asked for.  The target alone says what it does. -/
structure Cast where
  source : Kind
  target : Kind
  deriving DecidableEq, Repr

/-- What a member does. -/
inductive MemberRule where
  | objective
  | reset
  | length
  | rangeBound
  | resourcePart
  deriving DecidableEq, Repr

/-- A member of a kind. -/
structure Member where
  /-- Its name; without one it answers to every name. -/
  name : Option String
  /-- The kinds of its arguments, if it is a method. -/
  params : Option (List Kind)
  result : Kind
  rule : MemberRule
  deriving DecidableEq, Repr

/-- The text of an operation in listings of a tree. -/
def Operation.text (o : Operation) : String :=
  s!"Operation({o.op.symbol} {o.right.name} -> {o.result.name})"

/-- The text of an operation in listings of a tree. -/
def UnaryOperation.text (o : UnaryOperation) : String :=
  s!"UnaryOperation({o.op.symbol} -> {o.result.name})"

/-- The text of a cast in listings of a tree. -/
def Cast.text (c : Cast) : String := s!"Cast({c.source.name} -> {c.target.name})"

/-- The text of a member in listings of a tree. -/
def Member.text (m : Member) : String :=
  match m.name with
  | some name => s!"Member(Named(\"{name}\") -> {m.result.name})"
  | none => s!"Member(Any -> {m.result.name})"

namespace Kind

/-- Arithmetic and relations between two constants of one kind of number. -/
def numericOperations (k : Kind) : List Operation :=
  [Arith.add, .sub, .mul, .div, .mod].map (fun op => ⟨.arith op, k, k, .fold op⟩) ++
    [Relation.lt, .le, .gt, .ge, .eq, .ne].map (fun r => ⟨.relate r, k, .bool, .decide r⟩)

/-- Operators between a number and a score, a string or a range. -/
def intOperations : List Operation :=
  numericOperations .int ++
    [⟨.arith .add, .string, .string, .concat⟩,
      ⟨.arith .add, .score, .score, .arithWithScore .add⟩,
      ⟨.arith .mul, .score, .score, .arithWithScore .mul⟩] ++
    [Relation.lt, .le, .gt, .ge, .eq, .ne].map
      (fun r => ⟨.relate r, .score, .condition, .compareWithScore r⟩) ++
    [⟨.within, .range, .bool, .rangeHas⟩]

/-- Operators on a score. -/
def scoreOperations : List Operation :=
  [Arith.add, .sub, .mul, .div, .mod].flatMap (fun op =>
      [⟨.arith op, .int, .score, .scoreArith op⟩, ⟨.arith op, .score, .score, .scoreArith op⟩]) ++
    [Relation.lt, .le, .gt, .ge, .eq, .ne].flatMap (fun r =>
      [⟨.relate r, .int, .condition, .compareScore r⟩,
        ⟨.relate r, .score, .condition, .compareScore r⟩]) ++
    [⟨.within, .range, .condition, .scoreWithin⟩] ++
    [Kind.int, .score, .bool, .condition, .data].map (fun k => ⟨.assign, k, .void, .store⟩) ++
    [Arith.add, .sub, .mul, .div, .mod].flatMap (fun op =>
      [⟨.update op, .int, .void, .modify op⟩, ⟨.update op, .score, .void, .modify op⟩])

/-- The operators whose left operand is of the kind. -/
def operations : Kind → List Operation
  | int => intOperations
  | byte => numericOperations .byte
  | short => numericOperations .short
  | long => numericOperations .long
  | float => numericOperations .float
  | double => numericOperations .double
  | string =>
    [⟨.arith .add, .string, .string, .concat⟩, ⟨.arith .add, .int, .string, .concat⟩,
      ⟨.arith .add, .bool, .string, .concat⟩, ⟨.relate .eq, .string, .bool, .decide .eq⟩,
      ⟨.relate .ne, .string, .bool, .decide .ne⟩]
  | bool =>
    [⟨.and, .bool, .bool, .both⟩, ⟨.or, .bool, .bool, .either⟩,
      ⟨.relate .eq, .bool, .bool, .decide .eq⟩, ⟨.relate .ne, .bool, .bool, .decide .ne⟩,
      ⟨.and, .condition, .condition, .conjoin⟩, ⟨.or, .condition, .condition, .disjoin⟩]
  | score => scoreOperations
  | condition =>
    [⟨.and, .condition, .condition, .conjoin⟩, ⟨.or, .condition, .condition, .disjoin⟩]
  | enum => [⟨.relate .eq, .enum, .bool, .decide .eq⟩, ⟨.relate .ne, .enum, .bool, .decide .ne⟩]
  | _ => []

/-- The operators in front of the kind. -/
def unaryOperations : Kind → List UnaryOperation
  | bool => [⟨.not, .bool, .invert⟩]
  | score => [⟨.neg, .score, .negateScore⟩]
  | condition => [⟨.not, .condition, .invert⟩]
  | k => if k.isNumeric then [⟨.neg, k, .negate⟩] else []

/-- The kinds that are cast into the kind. -/
def castSources : Kind → List Kind
  | int => [byte, short, bool]
  | long => [int, byte, short]
  | float => [int, byte, short]
  | double => [int, float, byte, short, long]
  | string => [resource]
  | range => [int]
  | score => [int, bool, condition, data]
  | condition => [bool, score, selector, data]
  | item => [resource]
  | _ => []

/-- The casts into the kind. -/
def casts (k : Kind) : List Cast := k.castSources.map (⟨·, k⟩)

/-- The members of the kind. -/
def members : Kind → List Member
  | string | list => [⟨some "length", none, .int, .length⟩]
  | selector => [⟨none, none, .score, .objective⟩]
  | range => [⟨some "min", none, .int, .rangeBound⟩, ⟨some "max", none, .int, .rangeBound⟩]
  | score => [⟨some "reset", some [], .void, .reset⟩]
  | resource =>
    [⟨some "namespace", none, .string, .resourcePart⟩, ⟨some "path", none, .string, .resourcePart⟩]
  | _ => []

/-- Whether a path into data can follow a value of the kind. -/
def takesDataPath (k : Kind) : Bool := k = selector

/-- The registry that knows the data of values of the kind. -/
def schema? : Kind → Option String
  | item => some "item"
  | _ => none

/-- The operator of the left kind for exactly the right kind. -/
def operation? (left : Kind) (op : BinaryOp) (right : Kind) : Option Operation :=
  left.operations.find? fun o => o.op = op && o.right = right

/-- The cast from one kind into another. -/
def cast? (source target : Kind) : Option Cast := target.casts.find? (·.source = source)

/-- Whether a value of the kind `source` can stand where `target` is asked for. -/
def accepts (target source : Kind) : Bool := target = source || (cast? source target).isSome

/-- The member with a given name: one that bears the name, else one that answers to all. -/
def member? (k : Kind) (name : String) : Option Member :=
  (k.members.find? (·.name = some name)).or (k.members.find? (·.name = none))

/-- The names of the members. -/
def memberNames (k : Kind) : List String := k.members.filterMap (·.name)

end Kind

/-- An operator found for two operands, with the casts that they need first. -/
structure Resolved where
  operation : Operation
  leftCast : Option Cast
  rightCast : Option Cast
  deriving DecidableEq, Repr

/-- The operator of the left kind to which the right operand can be cast. -/
def castRight? (left : Kind) (op : BinaryOp) (right : Kind) : Option Resolved :=
  (left.operations.filter (·.op = op)).findSome? fun o =>
    (Kind.cast? right o.right).map fun c => ⟨o, none, some c⟩

/-- The operator of a kind to which the left operand can be cast, the right one being cast where it
is not of the right kind already. -/
def castLeft? (left : Kind) (op : BinaryOp) (right : Kind) : Option Resolved :=
  Kind.all.findSome? fun target =>
    (Kind.cast? left target).bind fun c =>
      (target.operations.filter (·.op = op)).findSome? fun o =>
        if o.right = right then some ⟨o, some c, none⟩
        else (Kind.cast? right o.right).map fun d => ⟨o, some c, some d⟩

/-- The operator for two operands: an exact one, else one with the right operand cast, else one with
the left operand cast. -/
def resolveBinary? (left : Kind) (op : BinaryOp) (right : Kind) : Option Resolved :=
  match Kind.operation? left op right with
  | some o => some ⟨o, none, none⟩
  | none => (castRight? left op right).or (castLeft? left op right)

/-- The operator in front of an operand: one of its own kind, else one of a kind it can be cast
to. -/
def resolveUnary? (operand : Kind) (op : UnaryOp) : Option (Option Cast × UnaryOperation) :=
  match operand.unaryOperations.find? (·.op = op) with
  | some o => some (none, o)
  | none =>
    Kind.all.findSome? fun target =>
      (Kind.cast? operand target).bind fun c =>
        (target.unaryOperations.find? (·.op = op)).map fun o => (some c, o)

end Packwright
