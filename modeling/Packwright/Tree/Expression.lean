import Packwright.Tree.Typing

/-!
# Reading expressions

Operators bind, from loosest to tightest: `||`, `&&`, comparisons and `in`, ranges, sums, products,
signs, members.  All but ranges and signs associate to the left.

An expression inside brackets is read by the argument `expr`.  `expressionWithin n` ties the knot
for expressions with at most `n` levels of brackets, and `expression` takes for `n` the number of
tokens that are left, which no nesting exceeds.  Loops are bounded in the same way.
-/

namespace Packwright

namespace Parse

/-- The arithmetic of sums. -/
def sumOps : List (Mark × BinaryOp) := [(.plus, .arith .add), (.minus, .arith .sub)]

/-- The arithmetic of products. -/
def productOps : List (Mark × BinaryOp) :=
  [(.star, .arith .mul), (.slash, .arith .div), (.percent, .arith .mod)]

/-- The relations. -/
def relationOps : List (Mark × BinaryOp) :=
  [(.eqEq, .relate .eq), (.ne, .relate .ne), (.lt, .relate .lt), (.le, .relate .le),
    (.gt, .relate .gt), (.ge, .relate .ge)]

/-- The operator that a token is on a level with the given marks. -/
def operatorAt? (ops : List (Mark × BinaryOp)) : Token → Option BinaryOp
  | .mark m => (ops.find? (·.1 = m)).map (·.2)
  | _ => none

/-- The relation that a token is. -/
def relationAt? : Token → Option BinaryOp
  | .keyword .inKw => some .within
  | t => operatorAt? relationOps t

/-- Goes on with an expression as long as operators of a level follow, at most `n` times. -/
def chain (op? : Token → Option BinaryOp) (next : Parse Expr) : (n : Nat) → Expr → Parse Expr
  | 0, left => return left
  | n + 1, left => do
    match op? (← peek) with
    | none => return left
    | some op =>
      let opSpan ← advance
      let right ← next
      chain op? next n (← binary op opSpan left right)

/-- Expressions of the next level, joined by operators of this level from the left. -/
def level (op? : Token → Option BinaryOp) (next : Parse Expr) : Parse Expr := do
  let first ← next
  chain op? next (← left) first

/-- Whether an expression can begin with a token. -/
def startsExpression : Token → Bool
  | .string _ | .name _ | .selector _ | .resource _ => true
  | .mark m => m ∈ [.lparen, .lbracket, .minus, .bang]
  | .keyword k => k ∈ [.trueKw, .falseKw]
  | t => t.isNumber

section Nested

variable (expr : Parse Expr)

/-- Expressions between commas, up to a closing mark, which is not taken; at most `n`. -/
def separated (close : Mark) : (n : Nat) → Parse (List Expr)
  | 0 => return []
  | n + 1 => do
    skipNewlines
    if ← isAt close then return []
    let e ← expr
    skipNewlines
    if ← eat .comma then return e :: (← separated close n) else return [e]

/-- The arguments of a call, with their parentheses. -/
def callArgs : Parse (List Expr) := do
  let _ ← expect .lparen
  let args ← separated expr .rparen (← left)
  let _ ← expect .rparen
  return args

/-- The parentheses behind the name of a function, which takes no arguments; the place of the last
one. -/
def emptyCall : Parse Span := do
  let args ← callArgs expr
  if let some e := args.head? then complain .functionsTakeNoArguments e.span
  last

/-- A list in brackets. -/
def bracketList : Parse Expr := do
  let start ← advance
  let items ← separated expr .rbracket (← left)
  skipNewlines
  let stop ← expect .rbracket
  listOf items (start.merge stop)

/-- The key of an entry, unless the compound ends here. -/
def compoundKey? : Parse (Option String) := do
  match ← peek with
  | .mark .rbrace => return none
  | .name key | .string key => return some key
  | .keyword k => return some k.text
  | _ => failExpecting "compound key"

/-- Entries between commas, up to the closing brace, which is not taken; at most `n`. -/
def compoundEntries : (n : Nat) → Parse (List (String × Expr))
  | 0 => return []
  | n + 1 => do
    skipNewlines
    match ← compoundKey? with
    | none => return []
    | some key =>
      let _ ← advance
      let _ ← expect .colon
      skipNewlines
      let e ← expr
      skipNewlines
      if ← eat .comma then return (key, e) :: (← compoundEntries n) else return [(key, e)]

/-- A compound in braces. -/
def compound : Parse Expr := do
  let start ← expect .lbrace
  let entries ← compoundEntries expr (← left)
  skipNewlines
  let stop ← expect .rbrace
  return .compound ⟨.plain .compound, start.merge stop⟩ entries

/-- A resource id, a call of a function by its id, or an item with data. -/
def resource (text : String) : Parse Expr := do
  let span ← advance
  let id := ResourceId.ofText text
  if ← isAt .lparen then
    let stop ← emptyCall expr
    return .call ⟨.plain .void, span.merge stop⟩ (.elsewhere id)
  if (← isAt .lbrace) && (← get).adjacent then
    let data ← compound expr
    let span := span.merge data.span
    match data.constant? with
    | some (.compound entries) => return .ofValue (.item id (some entries)) span
    | _ =>
      complain .itemDataNotConstant data.span
      return .unresolved span
  return .ofValue (.resource id) span

/-- A variable, a call, or a variant of an enumeration.  Names that nobody declared are left for the
check of the tree. -/
def named (name : String) : Parse Expr := do
  let span ← advance
  if ← isAt .lparen then
    let stop ← emptyCall expr
    return .call ⟨.plain .void, span.merge stop⟩ (.here name)
  let s ← get
  match s.lookup? name with
  | some b => return .name ⟨b.ty, span⟩ name
  | none =>
    let enumLike := name ∈ s.enums || name.toList.head?.any Char.isUpper
    if enumLike && (← isAt .dot) then
      let _ ← advance
      let variant ← expectName
      return .variant ⟨.enum name, span.merge variant.span⟩ name variant.name
    return .name ⟨.unresolved, span⟩ name

/-- An expression in parentheses. -/
def parenthesized : Parse Expr := do
  let start ← advance
  skipNewlines
  let e ← expr
  skipNewlines
  let stop ← expect .rparen
  return e.moved (start.merge stop)

/-- An expression without operators around it. -/
def primary : Parse Expr := do
  let span ← here
  let token ← peek
  match token with
  | .integer _ _ | .single _ | .double _ =>
    let _ ← advance
    numberLiteral false token span
  | .string s =>
    let _ ← advance
    return .ofValue (.string s) span
  | .keyword .trueKw =>
    let _ ← advance
    return .ofValue (.bool true) span
  | .keyword .falseKw =>
    let _ ← advance
    return .ofValue (.bool false) span
  | .selector text =>
    let _ ← advance
    match Selector.parse? text with
    | some s => return .ofValue (.selector s) span
    | none => throw ⟨.invalidSelector text, span⟩
  | .resource text => resource expr text
  | .mark .lbracket => bracketList expr
  | .mark .lbrace => compound expr
  | .mark .lparen => parenthesized expr
  | .name name => named expr name
  | _ => failExpecting "expression"

/-- Indices behind a part of a data path, as they are written in it; at most `n`. -/
def pathIndices : (n : Nat) → Parse String
  | 0 => return ""
  | n + 1 => do
    if (← isAt .lbracket) && (← get).adjacent then
      let _ ← advance
      match ← peek with
      | .integer .int index =>
        let _ ← advance
        let _ ← expect .rbracket
        return "[" ++ toString index ++ "]" ++ (← pathIndices n)
      | _ => failExpecting "list index"
    else return ""

/-- Whether a slash and a name follow without blanks between them. -/
def pathContinues (s : Parsing) : Bool :=
  match s.rest with
  | slash :: ⟨.name _, span⟩ :: _ =>
    slash.token.isMark .slash && s.adjacent && span.start = slash.span.stop
  | _ => false

/-- The parts of a data path, joined by points; at most `n`. -/
def pathParts : (n : Nat) → Parse String
  | 0 => return ""
  | n + 1 => do
    let part ← expectName
    let indices ← pathIndices (← left)
    if pathContinues (← get) then
      let _ ← advance
      return part.name ++ indices ++ "." ++ (← pathParts n)
    else return part.name ++ indices

/-- A path into the data of an expression, behind its first slash. -/
def dataPath (object : Expr) : Parse Expr := do
  let path ← pathParts (← left)
  let span := object.span.merge (← last)
  return .dataPath ⟨if object.isError then .unresolved else .plain .data, span⟩ object path

/-- A member of an expression, behind its point. -/
def member (object : Expr) : Parse Expr := do
  let name ← expectName
  let args : Option (List Expr) ←
    if ← isAt .lparen then some <$> callArgs expr else pure none
  memberOf object name args

/-- Goes on with an expression as long as members and data paths follow, at most `n` times. -/
def accesses : (n : Nat) → Expr → Parse Expr
  | 0, e => return e
  | n + 1, e => do
    match ← peek with
    | .mark .dot =>
      let _ ← advance
      accesses n (← member expr e)
    | .mark .slash =>
      if e.kind.takesDataPath && (← get).adjacent then
        let _ ← advance
        accesses n (← dataPath e)
      else return e
    | _ => return e

/-- An expression with its members. -/
def accessed : Parse Expr := do
  let e ← primary expr
  accesses expr (← left) e

/-- An expression with signs in front of it, at most `n`.  A minus sign directly in front of a
number belongs to the literal, so that the least integer can be written. -/
def signed : (n : Nat) → Parse Expr
  | 0 => accessed expr
  | n + 1 => do
    match ← peek with
    | .mark .minus =>
      let opSpan ← advance
      let s ← get
      if s.peek.isNumber && s.adjacent then
        let span := opSpan.merge (← advance)
        numberLiteral true s.peek span
      else unary .neg opSpan (← signed n)
    | .mark .bang =>
      let opSpan ← advance
      unary .not opSpan (← signed n)
    | _ => accessed expr

/-- An expression with its signs. -/
def factor : Parse Expr := do signed expr (← left)

/-- Products. -/
def product : Parse Expr := level (operatorAt? productOps) (factor expr)

/-- Sums. -/
def sum : Parse Expr := level (operatorAt? sumOps) (product expr)

/-- Ranges: `a..b`, `a..`, `..b`. -/
def ranged : Parse Expr := do
  if ← isAt .dotDot then
    let dots ← advance
    let max ← sum expr
    range none (some max) dots
  else
    let min ← sum expr
    if ← isAt .dotDot then
      let dots ← advance
      let max : Option Expr ←
        if startsExpression (← peek) then some <$> sum expr else pure none
      range (some min) max dots
    else return min

/-- Comparisons and membership. -/
def relation : Parse Expr := level relationAt? (ranged expr)

/-- Conjunctions. -/
def conjunction : Parse Expr := level (operatorAt? [(.and, .and)]) (relation expr)

/-- Disjunctions. -/
def disjunction : Parse Expr := level (operatorAt? [(.or, .or)]) (conjunction expr)

end Nested

/-- An expression with at most `n` levels of brackets. -/
def expressionWithin : (n : Nat) → Parse Expr
  | 0 => failExpecting "expression"
  | n + 1 => disjunction (expressionWithin n)

/-- An expression. -/
def expression : Parse Expr := do expressionWithin (← left)

end Parse

end Packwright
