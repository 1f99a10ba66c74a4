import Packwright.Text.Split

/-!
# Selectors, resource ids and data paths

The names by which commands address entities, functions and game data.
-/

namespace Packwright

/-- `@e[type=zombie]`; the arguments are kept as they are written. -/
structure Selector where
  kind : Char
  arguments : Option String
  deriving DecidableEq, Repr, Inhabited

namespace Selector

/-- The letters that select. -/
def kinds : List Char := ['a', 'e', 's', 'p', 'r', 'n']

/-- The word of a selector in a command. -/
def text (s : Selector) : String :=
  match s.arguments with
  | some inner => "@" ++ s.kind.toString ++ "[" ++ inner ++ "]"
  | none => "@" ++ s.kind.toString

/-- The selector with a given text. -/
def parse? (text : String) : Option Selector :=
  match text.toList with
  | '@' :: kind :: rest =>
    if kind ∈ kinds then
      match rest with
      | [] => some ⟨kind, none⟩
      | '[' :: inner =>
        if inner.getLast? = some ']' then some ⟨kind, some (String.ofList inner.dropLast)⟩ else none
      | _ => none
    else none
  | _ => none

end Selector

/-- `space:path` -/
structure ResourceId where
  space : String
  path : String
  deriving DecidableEq, Repr, Inhabited

namespace ResourceId

/-- The word of a resource id in a command. -/
def text (id : ResourceId) : String := id.space ++ ":" ++ id.path

/-- The id with a given text.  It is cut at the first colon; without one the space is the game's. -/
def ofText (text : String) : ResourceId :=
  match Text.splitOnce [':'] text.toList with
  | some (space, path) => ⟨String.ofList space, String.ofList path⟩
  | none => ⟨"minecraft", text⟩

end ResourceId

/-- A path into the data of an entity. -/
structure DataPath where
  target : Selector
  path : String
  deriving DecidableEq, Repr

/-- The words of a data path in a command. -/
def DataPath.text (d : DataPath) : String := "entity " ++ d.target.text ++ " " ++ d.path

end Packwright
