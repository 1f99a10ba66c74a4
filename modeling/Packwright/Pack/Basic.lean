import Packwright.Table
import Packwright.Target.Selector

/-!
# Packs

A pack is what a compilation produces: command lists under their ids, and the tags by which the game
finds the lists that it runs by itself.  Both are kept in the order in which they came in.
-/

namespace Packwright

/-- The tags of a pack.  Lists with the tag `load` run once, those with `tick` in every tick. -/
inductive Tag where
  | load
  | tick
  deriving DecidableEq, Repr

namespace Tag

/-- The name of a tag. -/
def name : Tag → String
  | load => "load"
  | tick => "tick"

/-- The tag with a given name. -/
def ofName? (s : String) : Option Tag := [load, tick].find? (·.name = s)

end Tag

/-- Command lists and tags. -/
structure Pack where
  /-- The space in which the pack is compiled. -/
  space : String
  functions : Table ResourceId (List String) := []
  tags : Table Tag (List ResourceId) := []
  deriving Repr, Inhabited

namespace Pack

/-- The lines of a command list. -/
def function? (p : Pack) (id : ResourceId) : Option (List String) := p.functions.get? id

/-- The pack with a command list added or replaced. -/
def addFunction (p : Pack) (id : ResourceId) (lines : List String) : Pack :=
  { p with functions := p.functions.put id lines }

/-- The pack without a command list. -/
def removeFunction (p : Pack) (id : ResourceId) : Pack :=
  { p with functions := p.functions.erase id }

/-- The ids under a tag. -/
def tagged (p : Pack) (tag : Tag) : List ResourceId := (p.tags.get? tag).getD []

/-- The pack with an id last under a tag, unless it is there already. -/
def addTag (p : Pack) (tag : Tag) (id : ResourceId) : Pack :=
  let ids := p.tagged tag
  { p with tags := p.tags.put tag (if id ∈ ids then ids else ids ++ [id]) }

/-- The pack with an id first under a tag. -/
def addTagFirst (p : Pack) (tag : Tag) (id : ResourceId) : Pack :=
  { p with tags := p.tags.put tag (id :: (p.tagged tag).filter (· ≠ id)) }

/-- The pack whose tags hold ids of its command lists only. -/
def retainTagged (p : Pack) : Pack :=
  { p with tags := p.tags.map fun (tag, ids) => (tag, ids.filter p.functions.has) }

end Pack

end Packwright
