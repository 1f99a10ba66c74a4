import Packwright.Operator.Symbol
import Packwright.Target.Selector
import Packwright.Token.Basic
import Packwright.Value.Kind

/-!
# Issues and diagnostics

An issue is a cause for complaint, found in one stage of a compilation.  `Issue.message` holds the
wording of all of them.  A diagnostic is an issue at a place.
-/

namespace Packwright

/-- The stages that find issues. -/
inductive Stage where
  | lexer | parser | type | semantic | compiler
  deriving DecidableEq, Repr

/-- The name of a stage in reports. -/
def Stage.name : Stage → String
  | lexer => "lexer" | parser => "parser" | type => "type" | semantic => "semantic"
  | compiler => "compiler"

/-- How grave an issue is.  Warnings do not fail a build. -/
inductive Severity where
  | warning | error
  deriving DecidableEq, Repr

/-- The name of a severity in reports. -/
def Severity.name : Severity → String
  | warning => "warning"
  | error => "error"

/-- What a name of the whole script stands for. -/
inductive GlobalKind where
  | function | enumeration
  deriving DecidableEq, Repr

/-- The wording for what a name stands for. -/
def GlobalKind.label : GlobalKind → String
  | function => "a function"
  | enumeration => "an enum"

/-- What can be wrong with a script. -/
inductive Issue where
  -- characters
  | unterminatedString
  | integerSuffix (text : String)
  | numberOutOfRange (text : String)
  | loneAt
  | unterminatedSelector
  | unexpectedCharacter (character : Char)
  -- tokens
  | unmatchedBrace
  | expected (what : String) (got : Token)
  | unexpectedToken (got : Token)
  | annotationsNeedFunction
  | nestedFunction
  | expectedAddOrRemove (got : String)
  | invalidSelector (text : String)
  | functionsTakeNoArguments
  -- types
  | notAVariableType (ty : Ty)
  | unknownType (name : String)
  | mismatch (mismatch : Mismatch)
  | expectedType (want got : Ty)
  | cannotApply (op : BinaryOp) (target value : Ty)
  | rangeBound (got : Ty)
  | noBinaryOperator (op : BinaryOp) (left right : Ty)
  | noUnaryOperator (op : UnaryOp) (operand : Ty)
  | enumsDiffer (left right : String)
  | noMember (name : String) (ty : Ty)
  | argumentCount (name : String) (want got : Nat)
  | notAMethod (name : String)
  | methodNotCalled (name : String)
  | literalOutOfRange (kind : Kind)
  | itemDataNotConstant
  | listElementsDiffer
  -- names and uses
  | alreadyDeclared (name : String) (as : GlobalKind)
  | duplicateVariable (name : String)
  | notAssignable (ty : Ty)
  | unknownMarker (name : String)
  | notACondition (ty : Ty)
  | returnOutsideFunction
  | unknownVariable (name : String)
  | unknownFunction (name : String)
  | unknownEnum (name : String)
  | unknownVariant (enum name : String)
  | unknownId (what : String) (id : ResourceId)
  | unknownKey (key : String) (id : ResourceId)
  | keyType (key : String) (id : ResourceId) (want got : Kind)
  -- generation
  | reservedName (name : String)
  | notConstant (what : String)

namespace Issue

/-- The stage that finds an issue. -/
def stage : Issue → Stage
  | unterminatedString | integerSuffix _ | numberOutOfRange _ | loneAt | unterminatedSelector
  | unexpectedCharacter _ => .lexer
  | unmatchedBrace | expected _ _ | unexpectedToken _ | annotationsNeedFunction | nestedFunction
  | expectedAddOrRemove _ | invalidSelector _ | functionsTakeNoArguments => .parser
  | notAVariableType _ | unknownType _ | mismatch _ | expectedType _ _ | cannotApply _ _ _
  | rangeBound _ | noBinaryOperator _ _ _ | noUnaryOperator _ _ | enumsDiffer _ _ | noMember _ _
  | argumentCount _ _ _ | notAMethod _ | methodNotCalled _ | literalOutOfRange _
  | itemDataNotConstant | listElementsDiffer => .type
  | alreadyDeclared _ _ | duplicateVariable _ | notAssignable _ | unknownMarker _
  | notACondition _ | returnOutsideFunction | unknownVariable _ | unknownFunction _ | unknownEnum _
  | unknownVariant _ _ | unknownId _ _ | unknownKey _ _ | keyType _ _ _ _ => .semantic
  | reservedName _ | notConstant _ => .compiler

/-- What a registry does not know is a warning, all else is an error. -/
def severity : Issue → Severity
  | unknownId _ _ | unknownKey _ _ | keyType _ _ _ _ => .warning
  | _ => .error

/-- The wording of an issue. -/
def message : Issue → String
  | unterminatedString => "Unterminated string literal"
  | integerSuffix text => s!"Integer suffix on decimal literal: {text}"
  | numberOutOfRange text => s!"Number out of range: {text}"
  | loneAt => "Expected selector or annotation after '@'"
  | unterminatedSelector => "Unterminated selector arguments"
  | unexpectedCharacter c => s!"Unexpected character: '{c}'"
  | unmatchedBrace => "Unexpected `\x7d`"
  | expected what got => s!"Expected {what}, got {got.describe}"
  | unexpectedToken got => s!"Unexpected token {got.describe}"
  | annotationsNeedFunction => "Annotations must precede a function"
  | nestedFunction => "Functions must be declared at the top level"
  | expectedAddOrRemove got => s!"Expected `add` or `remove`, got `{got}`"
  | invalidSelector text => s!"Invalid selector `{text}`"
  | functionsTakeNoArguments => "Functions take no arguments"
  | notAVariableType ty => s!"`var` holds `int`, `bool` or `score`, not `{ty.text}`"
  | unknownType name => s!"Unknown type `{name}`"
  | mismatch m => m.message
  | expectedType want got => s!"Expected `{want.text}`, found `{got.text}`"
  | cannotApply op target value =>
    s!"Cannot apply `{op.symbol}` to `{target.text}` and `{value.text}`"
  | rangeBound got => s!"Range bounds must be `int`, found `{got.text}`"
  | noBinaryOperator op left right =>
    s!"no operator `{op.symbol}` for `{left.text}` and `{right.text}`"
  | noUnaryOperator op operand => s!"no operator `{op.symbol}` for `{operand.text}`"
  | enumsDiffer left right => s!"Cannot compare enum `{left}` with enum `{right}`"
  | noMember name ty => s!"No member `{name}` on `{ty.text}`"
  | argumentCount name want got => s!"`{name}` takes {want} argument(s), found {got}"
  | notAMethod name => s!"`{name}` is not a method"
  | methodNotCalled name => s!"`{name}` is a method; call it as `{name}()`"
  | literalOutOfRange kind => s!"Literal out of range for `{kind.name}`"
  | itemDataNotConstant => "Item data must be constant"
  | listElementsDiffer => "List elements must share one type"
  | alreadyDeclared name as => s!"`{name}` is already declared as {as.label}"
  | duplicateVariable name => s!"Variable `{name}` is already declared in this scope"
  | notAssignable ty => s!"Cannot assign to `{ty.text}`; only scores are assignable"
  | unknownMarker name => s!"Unknown annotation `@{name}`"
  | notACondition ty => s!"Expected a condition, found `{ty.text}`"
  | returnOutsideFunction => "`return` outside a function"
  | unknownVariable name => s!"Unknown variable `{name}`"
  | unknownFunction name => s!"Unknown function `{name}`"
  | unknownEnum name => s!"Unknown enum `{name}`"
  | unknownVariant enum name => s!"Enum `{enum}` has no variant `{name}`"
  | unknownId what id => s!"Unknown {what} `{id.text}`"
  | unknownKey key id => s!"Unknown key `{key}` for `{id.text}`"
  | keyType key id want got =>
    s!"Key `{key}` of `{id.text}` expects `{want.name}`, found `{got.name}`"
  | reservedName name => s!"`{name}` is reserved for top-level statements"
  | notConstant what => s!"{what} must be known at compile time"

end Issue

/-- An issue at a place. -/
structure Diagnostic where
  issue : Issue
  span : Span

namespace Diagnostic

/-- Whether the diagnostic is more than a warning. -/
def isError (d : Diagnostic) : Bool := d.issue.severity = .error

/-- The diagnostic as a line of a report on the source. -/
def render (d : Diagnostic) (source : String) : String :=
  let (line, column) := Source.position source d.span.start
  let grade := if d.isError then "" else "warning: "
  s!"[{d.issue.stage.name}] line {line}:{column}: {grade}{d.issue.message}"

end Diagnostic

/-- Candidates for completion at a place. -/
structure Suggestion where
  span : Span
  candidates : List String

/-- What a compilation has to say about a source, in the order in which it was found. -/
structure Report where
  diagnostics : List Diagnostic := []
  suggestions : List Suggestion := []

namespace Report

/-- The report with one more diagnostic. -/
def add (r : Report) (d : Diagnostic) : Report :=
  { r with diagnostics := r.diagnostics ++ [d] }

/-- The report with candidates for a place, if there are any. -/
def suggest (r : Report) (span : Span) (candidates : List String) : Report :=
  if candidates.isEmpty then r else { r with suggestions := r.suggestions ++ [⟨span, candidates⟩] }

/-- One report after another. -/
def append (r s : Report) : Report :=
  ⟨r.diagnostics ++ s.diagnostics, r.suggestions ++ s.suggestions⟩

/-- The number of diagnostics that are more than warnings. -/
def errorCount (r : Report) : Nat := (r.diagnostics.filter Diagnostic.isError).length

/-- Whether a diagnostic is more than a warning. -/
def hasErrors (r : Report) : Bool := r.diagnostics.any Diagnostic.isError

/-- The suggestions whose places touch an offset. -/
def suggestionsAt (r : Report) (offset : Nat) : List Suggestion :=
  r.suggestions.filter (·.span.touches offset)

end Report

end Packwright
