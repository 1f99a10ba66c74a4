import Packwright.Tree.Expr

/-!
# Statements
-/

namespace Packwright

/-- What the commands of a block run as or at. -/
inductive ContextKind where
  | as
  | at
  deriving DecidableEq, Repr

/-- The word of a context in a command. -/
def ContextKind.word : ContextKind → String
  | .as => "as"
  | .at => "at"

/-- `@load`, `@tick` -/
structure Annotation where
  name : String
  span : Span
  deriving DecidableEq, Repr

/-- Statements that become one command. -/
inductive Command where
  | say (message : Expr)
  | tellraw (target : Expr) (parts : List Expr)
  | give (target item : Expr) (count : Option Expr)
  | tag (target : Expr) (add : Bool) (name : String)
  | kill (target : Option Expr)
  | summon (entity : Expr) (data : Option Expr)
  /-- A command given as a text. -/
  | raw (text : Expr)

/-- A name where it is declared. -/
structure Declared where
  name : String
  span : Span
  deriving DecidableEq, Repr

/-- Statements.  The first component is the place. -/
inductive Stmt where
  | letBinding (span : Span) (name : Declared) (value : Expr)
  | var (span : Span) (name : Declared) (value : Option Expr) (operation : Option Operation)
  | assign (span : Span) (target : Expr) (op : BinaryOp) (value : Expr)
      (operation : Option Operation)
  | expr (span : Span) (expr : Expr)
  | block (span : Span) (body : List Stmt)
  | ifElse (span : Span) (condition : Expr) (thenBranch : Stmt) (elseBranch : Option Stmt)
  | while (span : Span) (condition : Expr) (body : Stmt)
  | function (span : Span) (name : Declared) (annotations : List Annotation) (body : List Stmt)
  | enum (span : Span) (name : Declared) (variants : List String)
  | context (span : Span) (kind : ContextKind) (selector : Expr) (body : Stmt)
  | command (span : Span) (command : Command)
  | return (span : Span)
  /-- A statement that could not be read. -/
  | error (span : Span)
  deriving Inhabited

/-- The place of a statement. -/
def Stmt.span : Stmt → Span
  | letBinding s _ _ | var s _ _ _ | assign s _ _ _ _ | expr s _ | block s _ | ifElse s _ _ _
  | .while s _ _ | function s _ _ _ | enum s _ _ | context s _ _ _ | command s _ | .return s
  | error s => s

/-- The statements of a source. -/
structure Script where
  body : List Stmt
  deriving Inhabited

end Packwright
