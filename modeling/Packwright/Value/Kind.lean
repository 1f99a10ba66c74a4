/-!
# Kinds and types

A kind is the base of a type; operators, casts and members look at kinds alone.  A type may also say
what a list holds or which enumeration is meant.
-/

namespace Packwright

/-- The kinds of values, with `void` for what has none and `error` for what is not resolved. -/
inductive Kind where
  | int | byte | short | long | float | double | string | bool | condition | score | selector
  | compound | list | range | enum | item | resource | data | void | error
  deriving DecidableEq, Repr, Inhabited

namespace Kind

/-- The name of a kind in the language. -/
def name : Kind → String
  | int => "int" | byte => "byte" | short => "short" | long => "long" | float => "float"
  | double => "double" | string => "string" | bool => "bool" | condition => "condition"
  | score => "score" | selector => "selector" | compound => "compound" | list => "list"
  | range => "range" | enum => "enum" | item => "item" | resource => "resource" | data => "data"
  | void => "void" | error => "error"

/-- Every kind, in the order in which casts are tried: a narrow number comes before a wide one. -/
def all : List Kind :=
  [int, byte, short, long, float, double, string, bool, condition, score, selector, compound, list,
    range, enum, item, resource, data, void, error]

/-- The kind that a type written in a source names.  Enumerations go by their own names. -/
def ofName? (s : String) : Option Kind :=
  (all.filter fun k => !(k = enum || k = void || k = error)).find? (·.name = s)

/-- Whether the kind is one of the numbers. -/
def isNumeric (k : Kind) : Bool := k ∈ [int, byte, short, long, float, double]

end Kind

/-- A kind with what is known beyond it. -/
inductive Ty where
  | plain (kind : Kind)
  | list (element : Option Kind) (length : Option Nat)
  | enum (name : String)
  deriving DecidableEq, Repr, Inhabited

/-- How a type fails to be the declared one of the same kind. -/
inductive Mismatch where
  | element (want got : Kind)
  | length (want got : Nat)
  | enumeration (want got : String)
  deriving DecidableEq, Repr

/-- The wording of a mismatch. -/
def Mismatch.message : Mismatch → String
  | element want got => s!"expected elements of type `{want.name}`, found `{got.name}`"
  | length want got => s!"expected {want} elements, found {got}"
  | enumeration want got => s!"expected enum `{want}`, found `{got}`"

namespace Ty

/-- The kind of a type. -/
def kind : Ty → Kind
  | plain k => k
  | list _ _ => .list
  | enum _ => .enum

/-- The type of what could not be resolved. -/
def unresolved : Ty := plain .error

/-- Whether the type is that of what could not be resolved. -/
def isError (t : Ty) : Bool := t.kind = .error

/-- The enumeration that a type names. -/
def enumName? : Ty → Option String
  | enum name => some name
  | _ => none

/-- The text of a type in messages. -/
def text : Ty → String
  | plain k => k.name
  | list (some e) (some n) => s!"list<{e.name}, {n}>"
  | list (some e) none => s!"list<{e.name}>"
  | list none _ => "list"
  | enum name => name

/-- How lengths that are both known differ. -/
def lengthMismatch? (want got : Option Nat) : Option Mismatch :=
  match want, got with
  | some w, some g => if w = g then none else some (.length w g)
  | _, _ => none

/-- How the type `got` fails to be the declared type `want`, where both say more than their kind. -/
def mismatch? (want got : Ty) : Option Mismatch :=
  match want, got with
  | list element length, list element' length' =>
    match element, element' with
    | some w, some g => if w = g then lengthMismatch? length length' else some (.element w g)
    | _, _ => lengthMismatch? length length'
  | enum w, enum g => if w = g then none else some (.enumeration w g)
  | _, _ => none

end Ty

end Packwright
