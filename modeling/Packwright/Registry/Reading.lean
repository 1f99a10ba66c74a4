import Packwright.Json.Fields
import Packwright.Registry

/-!
# Reading registries
-/

namespace Packwright.Registry

/-- The registry that a document describes. -/
def ofJson? (j : Json) : Option Registry := do
  let fields ← j.fields? ["entries", "schemas"]
  let entries ← Json.field? fields "entries" (Json.table? (Json.list? Json.string?)) []
  let schemas ←
    Json.field? fields "schemas" (Json.table? (Json.table? (Json.table? Json.string?))) []
  return ⟨entries, schemas⟩

end Packwright.Registry
