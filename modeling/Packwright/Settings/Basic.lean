import Packwright.Draft.Basic
import Packwright.Files.Path
import Packwright.Json.Fields
import Packwright.Text.Blank

/-!
# Settings

How a pack is built: the options of generation, where the output goes, and which registry is asked.
-/

namespace Packwright

/-- The settings of a build. -/
structure Settings where
  options : Options := {}
  /-- The root of the output. -/
  outputDir : String := "build"
  /-- The file of the registry, if there is one. -/
  registry : Option String := none
  deriving DecidableEq, Repr

/-- What can be wrong with settings. -/
inductive Flaw where
  | space (value : String)
  | objective (value : String)
  | path (field value : String)
  deriving DecidableEq, Repr

/-- The wording of a flaw. -/
def Flaw.message : Flaw → String
  | space value => s!"namespace `{value}` may only contain a-z, 0-9, `_`, `-` and `.`"
  | objective value => s!"objective `{value}` must be a single non-empty word"
  | path field value => s!"{field} `{value}` is not a valid path"

namespace Settings

/-- Whether a text can be the space of ids. -/
def isSpace (s : String) : Bool :=
  !s.isEmpty && s.toList.all fun c => c.isLower || c.isDigit || c = '_' || c = '-' || c = '.'

/-- Whether a text is one word. -/
def isWord (s : String) : Bool := !s.isEmpty && !s.toList.any Text.isBlank

/-- Whether a text can be the path of an id. -/
def isPath (s : String) : Bool := isWord s && ':' ∉ s.toList

/-- The first thing that is wrong with settings. -/
def flaw? (s : Settings) : Option Flaw :=
  let o := s.options
  if !isSpace o.space then some (.space o.space)
  else if !isWord o.objective then some (.objective o.objective)
  else if !isPath o.main then some (.path "main_function" o.main)
  else if !isPath o.generatedDir then some (.path "generated_dir" o.generatedDir)
  else none

/-- The names of the fields in a document, in order. -/
def fieldNames : List String :=
  ["namespace", "objective", "main_function", "generated_dir", "output_dir", "registry", "optimize"]

/-- The settings that a document describes. -/
def ofJson? (j : Json) : Option Settings := do
  let fields ← j.fields? fieldNames
  let d : Settings := {}
  let text (name default : String) : Option String := Json.field? fields name Json.string? default
  let space ← text "namespace" d.options.space
  let objective ← text "objective" d.options.objective
  let main ← text "main_function" d.options.main
  let generatedDir ← text "generated_dir" d.options.generatedDir
  let outputDir ← text "output_dir" d.outputDir
  let registry ← Json.field? fields "registry" (Json.optional? Json.string?) d.registry
  let cleanup ← Json.field? fields "optimize" Json.bool? d.options.cleanup
  return ⟨⟨space, objective, main, generatedDir, cleanup⟩, outputDir, registry⟩

/-- The settings with their paths taken from a folder on. -/
def relativeTo (s : Settings) (dir : String) : Settings :=
  { s with outputDir := Path.join dir s.outputDir, registry := s.registry.map (Path.join dir) }

end Settings

end Packwright
