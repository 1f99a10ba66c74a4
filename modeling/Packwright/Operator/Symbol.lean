/-!
# Operators

The operators of the language by what they are for: arithmetic, relations, logic, membership in a
range, and assignment.
-/

namespace Packwright

/-- Arithmetic. -/
inductive Arith where
  | add | sub | mul | div | mod
  deriving DecidableEq, Repr

/-- The sign of an arithmetic operator. -/
def Arith.symbol : Arith → String
  | add => "+" | sub => "-" | mul => "*" | div => "/" | mod => "%"

/-- Relations between two values. -/
inductive Relation where
  | lt | le | gt | ge | eq | ne
  deriving DecidableEq, Repr

namespace Relation

/-- The sign of a relation. -/
def symbol : Relation → String
  | lt => "<" | le => "<=" | gt => ">" | ge => ">=" | eq => "==" | ne => "!="

/-- The relation with its sides exchanged. -/
def flipped : Relation → Relation
  | lt => gt
  | le => ge
  | gt => lt
  | ge => le
  | r => r

end Relation

/-- The operators between two operands. -/
inductive BinaryOp where
  | arith (op : Arith)
  | relate (relation : Relation)
  | and
  | or
  | within
  | assign
  /-- Assignment of the result of an arithmetic operator: `+=` and the like. -/
  | update (op : Arith)
  deriving DecidableEq, Repr

namespace BinaryOp

/-- The sign of an operator. -/
def symbol : BinaryOp → String
  | arith op => op.symbol
  | relate r => r.symbol
  | and => "&&"
  | or => "||"
  | within => "in"
  | assign => "="
  | update op => op.symbol ++ "="

/-- The operator with its operands exchanged. -/
def flipped : BinaryOp → BinaryOp
  | relate r => relate r.flipped
  | op => op

/-- The arithmetic operator of an assignment. -/
def arithmetic? : BinaryOp → Option BinaryOp
  | update op => some (arith op)
  | _ => none

/-- Every operator. -/
def all : List BinaryOp :=
  [Arith.add, .sub, .mul, .div, .mod].map arith ++
    [Relation.lt, .gt, .le, .ge, .eq, .ne].map relate ++ [and, or, within, assign] ++
    [Arith.add, .sub, .mul, .div, .mod].map update

/-- The operator with a given sign. -/
def ofSymbol? (s : String) : Option BinaryOp := all.find? (·.symbol = s)

end BinaryOp

/-- The operators in front of one operand. -/
inductive UnaryOp where
  | neg
  | not
  deriving DecidableEq, Repr

/-- The sign of an operator. -/
def UnaryOp.symbol : UnaryOp → String
  | neg => "-"
  | not => "!"

end Packwright
