import Packwright.Token.Stream
import Packwright.Tree.Expression

/-!
# Reading literals
-/

namespace Packwright

/-- The value of tokens that are one expression made of literals. -/
def literalOf? (tokens : List Located) : Option Value :=
  match Parse.expression { rest := tokens } with
  | .ok e s => if s.peek.isEnd && !s.report.hasErrors then e.constant? else none
  | .error _ _ => none

/-- The value of a text that is a literal of the given kind. -/
def parseLiteral? (kind : Kind) (text : String) : Option Value :=
  match tokenize text with
  | (tokens, []) => (literalOf? tokens).filter (·.kind = kind)
  | _ => none

end Packwright
