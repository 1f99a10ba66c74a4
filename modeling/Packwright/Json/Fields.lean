import Packwright.Json.Reading
import Packwright.Table

/-!
# Documents as records

A record is written as an object, or as an array of its fields in order.  A field that is left out
keeps its default; a known key may not repeat, and an unknown one is passed over.
-/

namespace Packwright.Json

/-- The text of a string. -/
def string? : Json → Option String
  | string s => some s
  | _ => none

/-- The value of a truth value. -/
def bool? : Json → Option Bool
  | bool b => some b
  | _ => none

/-- A document that may be null. -/
def optional? {α : Type} (f : Json → Option α) : Json → Option (Option α)
  | null => some none
  | j => (f j).map some

/-- The items of an array, all of one kind. -/
def list? {α : Type} (f : Json → Option α) : Json → Option (List α)
  | array items => items.mapM f
  | _ => none

/-- The entries of an object, all of one kind.  The last value of a key counts. -/
def table? {α : Type} (f : Json → Option α) : Json → Option (Table String α)
  | object entries => (entries.mapM fun e => (f e.2).map fun a => (e.1, a)).map Table.ofPairs
  | _ => none

/-- The fields of a record with the given names, where they are present. -/
def fields? (names : List String) : Json → Option (Table String Json)
  | object entries =>
    let known := entries.filter (·.1 ∈ names)
    if (known.map Prod.fst).Nodup then some known else none
  | array items => if items.length ≤ names.length then some (names.zip items) else none
  | _ => none

/-- The value of a field of a record. -/
def field? {α : Type} (fields : Table String Json) (name : String) (f : Json → Option α)
    (default : α) : Option α :=
  match fields.get? name with
  | some j => f j
  | none => some default

end Packwright.Json
