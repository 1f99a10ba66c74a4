import Packwright.Json.Basic
import Packwright.Pack.Basic

/-!
# The assets of a pack

What is written of a pack: a file of commands for every list and a document for every tag in use.
-/

namespace Packwright

/-- A text and where in a pack it belongs. -/
structure Asset where
  space : String
  /-- The folder of its kind; steps are divided by `/`. -/
  category : String
  path : String
  extension : String
  content : String
  deriving DecidableEq, Repr

/-- The place of an asset below the folder of all data. -/
def Asset.key (a : Asset) : String :=
  a.space ++ "/" ++ a.category ++ "/" ++ a.path ++ "." ++ a.extension

namespace Pack

/-- The asset of a command list: one command a line. -/
def functionAsset (id : ResourceId) (lines : List String) : Asset :=
  ⟨id.space, "function", id.path, "mcfunction", "\n".intercalate lines⟩

/-- The asset of a tag. -/
def tagAsset (tag : Tag) (ids : List ResourceId) : Asset :=
  let values := Json.array (ids.map fun id => .string id.text)
  ⟨"minecraft", "tags/function", tag.name, "json", (Json.object [("values", values)]).pretty⟩

/-- The assets of a pack: first the command lists, then the tags that have an id. -/
def assets (p : Pack) : List Asset :=
  p.functions.map (fun (id, lines) => functionAsset id lines) ++
    (p.tags.filter fun t => !t.2.isEmpty).map fun (tag, ids) => tagAsset tag ids

/-- The contents of the assets under their keys. -/
def contents (p : Pack) : Table String String :=
  Table.ofPairs (p.assets.map fun a => (a.key, a.content))

end Pack

end Packwright
