import Packwright.Table
import Packwright.Target.Selector
import Packwright.Value.Kind

/-!
# Registries

What is known about the game: the ids that exist, and which keys the data of an entry may have.  Ids
are kept as they are written; one without a space means one of the game.
-/

namespace Packwright

/-- Known ids and schemas, by the name of a registry.  The empty one knows nothing, and nothing is
checked against it. -/
structure Registry where
  entries : Table String (List String) := []
  /-- For every id the names of the kinds of its keys. -/
  schemas : Table String (Table String (Table String String)) := []
  deriving Repr, Inhabited

namespace Registry

/-- The registry of items. -/
def items : String := "item"

/-- The registry of entities. -/
def entities : String := "entity_type"

/-- Whether an id is known; no answer without the registry. -/
def has? (r : Registry) (name : String) (id : ResourceId) : Option Bool :=
  (r.entries.get? name).map fun ids => ids.any fun e => ResourceId.ofText e = id

/-- The ids of a registry as they are written. -/
def idsOf (r : Registry) (name : String) : List String := (r.entries.get? name).getD []

/-- The keys that the data of an id may have, and their kinds.  A kind that does not exist is passed
over. -/
def schema? (r : Registry) (name : String) (id : ResourceId) : Option (Table String Kind) :=
  ((r.schemas.get? name).bind fun ids => ids.find? fun e => ResourceId.ofText e.1 = id).map
    fun e => e.2.filterMap fun (key, kind) => (Kind.ofName? kind).map (key, ·)

end Registry

end Packwright
