import Packwright.Analysis
import Packwright.Files.Basic
import Packwright.Registry.Reading
import Packwright.Settings.Basic

/-!
# Building packs from files

`Build.load` reads the settings, `Build.compileFiles` compiles source files into one pack, and
`Build.writePack` writes its assets.
-/

namespace Packwright

/-- Why a build ends early. -/
inductive Failure where
  /-- A file could not be read or written. -/
  | files
  /-- A file is not the document that it should be. -/
  | json
  | settings (flaw : Flaw)
  deriving DecidableEq, Repr

/-- The wording of a failure. -/
def Failure.message : Failure → String
  | files => "I/O error"
  | json => "JSON error"
  | settings flaw => s!"Invalid configuration: {flaw.message}"

/-- What was found in a source file. -/
structure SourceReport where
  path : String
  source : String
  report : Report

/-- The findings as lines. -/
def SourceReport.rendered (r : SourceReport) : List String :=
  r.report.diagnostics.map fun d => r.path ++ ": " ++ d.render r.source

/-- What came of compiling files. -/
structure Outcome where
  reports : List SourceReport
  pack : Pack

/-- The number of errors in all files. -/
def Outcome.errorCount (o : Outcome) : Nat :=
  o.reports.foldl (fun count r => count + r.report.errorCount) 0

namespace Build

variable {m : Type → Type} [Monad m] [MonadFiles m]

/-- The text of a file. -/
def readText (path : String) : ExceptT Failure m String := do
  match ← MonadFiles.read? path with
  | some text => return text
  | none => throw .files

/-- What the document in a file describes. -/
def readDocument {α : Type} (path : String) (f : Json → Option α) : ExceptT Failure m α := do
  match (Json.parse? (← readText path)).bind f with
  | some a => return a
  | none => throw .json

/-- Settings without a flaw. -/
def validated (s : Settings) : ExceptT Failure m Settings :=
  match s.flaw? with
  | some flaw => throw (.settings flaw)
  | none => return s

/-- The settings in a file, or the default ones if there is no file.  Paths in the file are taken
from its folder on. -/
def load (path : String) : ExceptT Failure m Settings := do
  if !(← MonadFiles.exists? path) then return {}
  let s ← readDocument path Settings.ofJson?
  validated (s.relativeTo ((Path.parent? path).getD ""))

/-- The registry that the settings name. -/
def loadRegistry (s : Settings) : ExceptT Failure m Registry :=
  match s.registry with
  | some path => readDocument path Registry.ofJson?
  | none => return {}

/-- Reads source files. -/
def readSources : List String → ExceptT Failure m (List (String × String))
  | [] => return []
  | path :: paths => do
    let source ← readText path
    return (path, source) :: (← readSources paths)

/-- Compiles source files into one pack. -/
def compileFiles (paths : List String) (s : Settings) : ExceptT Failure m Outcome := do
  let registry ← loadRegistry s
  let sources ← readSources paths
  let (pack, findings) := compileAll (sources.map Prod.snd) s.options registry
  let reports := (sources.zip findings).map fun ((path, source), f) =>
    (⟨path, source, f.front.append ⟨f.back, []⟩⟩ : SourceReport)
  return ⟨reports, pack⟩

/-- Writes assets below a root and counts them. -/
def writeAssets (root : String) : List Asset → ExceptT Failure m Nat
  | [] => return 0
  | a :: rest => do
    let path := Path.asset root a.space a.category a.path a.extension
    if ← MonadFiles.write path a.content then return (← writeAssets root rest) + 1
    else throw .files

/-- Writes the assets of a pack below a root and counts them. -/
def writePack (pack : Pack) (root : String) : ExceptT Failure m Nat := writeAssets root pack.assets

end Build

end Packwright
