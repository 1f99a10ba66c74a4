import Packwright.Tree.Expression

/-!
# Reading statements

A statement that cannot be read is reported, and reading goes on behind its line, within the same
block.  A statement inside another is read by the argument `inner`; `statementWithin n` ties the
knot for statements nested at most `n` deep, and `script` takes for `n` the number of tokens.
-/

namespace Packwright

/-- Where a statement stands. -/
structure Setting where
  /-- The annotations in front of it. -/
  annotations : List Annotation := []
  /-- Whether it is inside another statement. -/
  nested : Bool := false

namespace Parse

/-- The keywords that begin statements, in the order in which they are suggested. -/
def statementKeywords : List Keyword :=
  [.varKw, .letKw, .ifKw, .whileKw, .functionKw, .enumKw, .asKw, .atKw, .sayKw, .tellrawKw, .giveKw,
    .tagKw, .killKw, .summonKw, .cmdKw, .returnKw]

/-- Whether a statement can end in front of a token. -/
def endsStatement : Token → Bool
  | .newline | .endOfSource | .keyword .elseKw => true
  | .mark m => m ∈ [.semicolon, .rbrace]
  | _ => false

/-- Whether a token separates statements. -/
def separates : Token → Bool
  | .newline => true
  | t => t.isMark .semicolon

/-- The place from a token to the one that was taken last. -/
def sinceStart (start : Span) : Parse Span := return start.merge (← last)

/-- The kind that a type names. -/
def kindNamed (name : Declared) : Parse Kind := do
  match Kind.ofName? name.name with
  | some k => return k
  | none => throw ⟨.unknownType name.name, name.span⟩

/-- The length of a list behind the kind of its elements. -/
def listLength : Parse (Option Nat) := do
  if ← eat .comma then
    match ← peek with
    | .integer .int n =>
      let _ ← advance
      return some n
    | _ => failExpecting "list length"
  else return none

/-- A type: `int`, `list<int, 3>`, the name of an enumeration. -/
def declaredType : Parse Ty := do
  let name ← expectName
  if name.name ∈ (← get).enums then return .enum name.name
  let kind ← kindNamed name
  if kind ≠ .list then return .plain kind
  if ← eat .lt then
    let element ← kindNamed (← expectName)
    let length ← listLength
    let _ ← expect .gt
    return .list (some element) length
  else return .plain kind

/-- An expression for a selector. -/
def selectorOperand : Parse Expr := do coerce (← expression) (.plain .selector)

/-- The type behind the name of a variable, if there is one; variables hold only some. -/
def variableType : Parse Unit := do
  if ← eat .colon then
    let start ← here
    let ty ← declaredType
    if ty.kind ∉ [.int, .bool, .score] then complain (.notAVariableType ty) (← sinceStart start)

/-- `var name = value` -/
def varStatement : Parse Stmt := do
  let start ← advance
  let name ← expectName
  variableType
  let (value, operation) ←
    if ← isAt .eq then
      let opSpan ← advance
      let (value, operation) ← assignment (.plain .score) .assign (← expression) opSpan
      pure (some value, operation)
    else pure (none, none)
  modify (·.declare name.name (.plain .score))
  return .var (← sinceStart start) name value operation

/-- `let name: type = value` -/
def letStatement : Parse Stmt := do
  let start ← advance
  let name ← expectName
  let declared : Option Ty ← if ← eat .colon then some <$> declaredType else pure none
  let _ ← expect .eq
  let value ← expression
  match declared with
  | some ty =>
    let value ← coerce value ty
    modify (·.declare name.name ty)
    return .letBinding (start.merge value.span) name value
  | none =>
    modify (·.declare name.name value.ty)
    return .letBinding (start.merge value.span) name value

/-- The variants of an enumeration, up to its closing brace, which is not taken; at most `n`. -/
def variants : (n : Nat) → Parse (List String)
  | 0 => return []
  | n + 1 => do
    modify (Parsing.skipWhile fun t => t.isNewline || t.isMark .comma)
    if ← isAt .rbrace then return []
    let variant ← expectName
    return variant.name :: (← variants n)

/-- `enum Name { A, B }` -/
def enumStatement : Parse Stmt := do
  let start ← advance
  let name ← expectName
  skipNewlines
  let _ ← expect .lbrace
  let names ← variants (← left)
  let stop ← advance
  modify fun s => { s with enums := name.name :: s.enums }
  return .enum (start.merge stop) name names

/-- An operand that may be missing at the end of a statement. -/
def optionalOperand (p : Parse Expr) : Parse (Option Expr) := do
  if endsStatement (← peek) then return none else some <$> p

/-- `say message` -/
def sayStatement : Parse Stmt := do
  let start ← advance
  let message ← expression
  return .command (← sinceStart start) (.say message)

/-- Expressions behind commas; at most `n`. -/
def moreParts : (n : Nat) → Parse (List Expr)
  | 0 => return []
  | n + 1 => do
    if ← eat .comma then
      let e ← expression
      return e :: (← moreParts n)
    else return []

/-- `tellraw target part, part` -/
def tellrawStatement : Parse Stmt := do
  let start ← advance
  let target ← selectorOperand
  let first ← expression
  let parts ← moreParts (← left)
  return .command (← sinceStart start) (.tellraw target (first :: parts))

/-- `give target item count` -/
def giveStatement : Parse Stmt := do
  let start ← advance
  let target ← selectorOperand
  let item ← coerce (← expression) (.plain .item)
  let count ← optionalOperand do coerce (← expression) (.plain .int)
  return .command (← sinceStart start) (.give target item count)

/-- The name of a tag. -/
def tagName : Parse String := do
  match ← peek with
  | .name text | .string text =>
    let _ ← advance
    return text
  | _ => failExpecting "tag name"

/-- `tag target add name` -/
def tagStatement : Parse Stmt := do
  let start ← advance
  let target ← selectorOperand
  let action ← expectName
  if action.name ≠ "add" ∧ action.name ≠ "remove" then
    throw ⟨.expectedAddOrRemove action.name, action.span⟩
  let name ← tagName
  return .command (← sinceStart start) (.tag target (action.name = "add") name)

/-- `kill target` -/
def killStatement : Parse Stmt := do
  let start ← advance
  let target ← optionalOperand selectorOperand
  return .command (← sinceStart start) (.kill target)

/-- `summon entity data` -/
def summonStatement : Parse Stmt := do
  let start ← advance
  let entity ← coerce (← expression) (.plain .resource)
  let data ← optionalOperand do coerce (← expression) (.plain .compound)
  return .command (← sinceStart start) (.summon entity data)

/-- `cmd text` -/
def rawStatement : Parse Stmt := do
  let start ← advance
  let text ← coerce (← expression) (.plain .string)
  return .command (← sinceStart start) (.raw text)

/-- The assignment that a token is. -/
def assignmentOp? : Token → Option BinaryOp
  | .mark .eq => some .assign
  | .mark .plusEq => some (.update .add)
  | .mark .minusEq => some (.update .sub)
  | .mark .starEq => some (.update .mul)
  | .mark .slashEq => some (.update .div)
  | .mark .percentEq => some (.update .mod)
  | _ => none

/-- An expression, or an assignment to it.  Targets other than scores are left for the check of the
tree. -/
def expressionStatement : Parse Stmt := do
  let target ← expression
  match assignmentOp? (← peek) with
  | none => return .expr target.span target
  | some op =>
    let opSpan ← advance
    let value ← expression
    let (value, operation) ←
      if target.kind = .score then assignment target.ty op value opSpan else pure (value, none)
    return .assign (target.span.merge value.span) target op value operation

/-- The annotations in front of a statement, each with the line breaks behind it; at most `n`. -/
def annotations : (n : Nat) → Parse (List Annotation)
  | 0 => return []
  | n + 1 => do
    match ← peek with
    | .marker name =>
      let span ← advance
      skipNewlines
      return ⟨name, span⟩ :: (← annotations n)
    | _ => return []

/-- The state behind a statement: what separates it from the next one is passed over, and anything
else is reported and passed over with its line. -/
def finishStatement (s : Parsing) : Parsing :=
  if separates s.peek then s.skipWhile separates
  else if s.peek.isMark .rbrace || s.peek.isEnd then s
  else (s.complain (.unexpectedToken s.peek) s.here).recover

/-- A statement of a block.  It never fails: a statement that cannot be read is reported. -/
def guardedStatement (read : Parse Stmt) : Parse Stmt := fun s =>
  let start := s.here
  let candidates := statementKeywords.map Keyword.text ++ s.visibleNames
  match read (s.suggest start candidates) with
  | .ok stmt s => .ok stmt (finishStatement s)
  | .error d s =>
    let s := (s.complain d.issue d.span).recover
    .ok (.error (start.merge s.last)) s

/-- Statements up to a closing brace or the end of the source; at most `n`. -/
def statements (read : Parse Stmt) : (n : Nat) → Parse (List Stmt)
  | 0 => return []
  | n + 1 => do
    modify (Parsing.skipWhile separates)
    let token ← peek
    if token.isMark .rbrace || token.isEnd then return []
    let stmt ← guardedStatement read
    return stmt :: (← statements read n)

section Nested

variable (inner : Setting → Parse Stmt)

/-- The statements of a block, in a scope of their own, and the place of the block. -/
def blockBody : Parse (List Stmt × Span) := do
  let start ← expect .lbrace
  let body ← inScope do statements (inner { nested := true }) (← left)
  let stop ← expect .rbrace
  return (body, start.merge stop)

/-- `{ … }` -/
def block : Parse Stmt := do
  let (body, span) ← blockBody inner
  return .block span body

/-- What a condition, a loop or a context governs: a block, or one statement in a scope of its
own. -/
def branch : Parse Stmt := do
  skipNewlines
  if ← isAt .lbrace then block inner else inScope (inner { nested := true })

/-- `if condition branch else branch` -/
def ifStatement : Parse Stmt := do
  let start ← advance
  let condition := asCondition (← expression)
  let thenBranch ← branch inner
  let elseBranch : Option Stmt ←
    if (← peek).isKeyword .elseKw then
      let _ ← advance
      some <$> branch inner
    else pure none
  return .ifElse (← sinceStart start) condition thenBranch elseBranch

/-- `while condition branch` -/
def whileStatement : Parse Stmt := do
  let start ← advance
  let condition := asCondition (← expression)
  let body ← branch inner
  return .while (← sinceStart start) condition body

/-- `function name block`, at the top of a script only. -/
def functionStatement (setting : Setting) : Parse Stmt := do
  let start ← advance
  if setting.nested then throw ⟨.nestedFunction, start⟩
  let name ← expectName
  skipNewlines
  let (body, span) ← blockBody inner
  return .function (start.merge span) name setting.annotations body

/-- `as selector branch`, `at selector branch` -/
def contextStatement (kind : ContextKind) : Parse Stmt := do
  let start ← advance
  let selector ← selectorOperand
  let body ← branch inner
  return .context (← sinceStart start) kind selector body

/-- The statement that begins with a keyword, if one does. -/
def keywordStatement? (setting : Setting) : Keyword → Option (Parse Stmt)
  | .varKw => some varStatement
  | .letKw => some letStatement
  | .ifKw => some (ifStatement inner)
  | .whileKw => some (whileStatement inner)
  | .functionKw => some (functionStatement inner setting)
  | .enumKw => some enumStatement
  | .asKw => some (contextStatement inner .as)
  | .atKw => some (contextStatement inner .at)
  | .sayKw => some sayStatement
  | .tellrawKw => some tellrawStatement
  | .giveKw => some giveStatement
  | .tagKw => some tagStatement
  | .killKw => some killStatement
  | .summonKw => some summonStatement
  | .cmdKw => some rawStatement
  | .returnKw => some (return .return (← advance))
  | _ => none

/-- A statement with its annotations. -/
def statement (setting : Setting) : Parse Stmt := do
  let notes ← annotations (← left)
  if let some first := notes.head? then
    if !(← peek).isKeyword .functionKw then throw ⟨.annotationsNeedFunction, first.span⟩
  match ← peek with
  | .keyword k =>
    match keywordStatement? inner { setting with annotations := notes } k with
    | some read => read
    | none => expressionStatement
  | .mark .lbrace => block inner
  | _ => expressionStatement

end Nested

/-- A statement nested at most `n` deep. -/
def statementWithin : (n : Nat) → Setting → Parse Stmt
  | 0, _ => failExpecting "statement"
  | n + 1, setting => statement (statementWithin n) setting

/-- The statements of a source.  A brace that closes nothing is reported and passed over; that
happens at most `n` times. -/
def scriptBody (read : Parse Stmt) : (n : Nat) → Parse (List Stmt)
  | 0 => return []
  | n + 1 => do
    let body ← statements read (← left)
    if ← isAt .rbrace then
      complain .unmatchedBrace (← advance)
      return body ++ (← scriptBody read n)
    else return body

end Parse

/-- The script of a list of tokens, and what was found while it was read. -/
def parseScript (tokens : List Located) : Script × Report :=
  let n := tokens.length
  match Parse.scriptBody (Parse.statementWithin n {}) n { rest := tokens } with
  | .ok body s => (⟨body⟩, s.report)
  | .error d s => (⟨[]⟩, s.report.add d)

end Packwright
