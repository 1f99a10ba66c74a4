import Packwright.Build
import Packwright.CommandLine.Arguments
import Packwright.Settings.Schema

/-!
# Running the program

`CommandLine.run` does what the arguments ask for: the exit code and what is printed, given access
to files.
-/

namespace Packwright.CommandLine

/-- How a run of the program ends. -/
structure Response where
  exit : Nat := 0
  stdout : String := ""
  stderr : String := ""
  deriving DecidableEq, Repr

/-- The response to an early end. -/
def Refusal.response : Refusal → Response
  | misuse =>
    { exit := 2, stderr := "error: invalid arguments\n\nFor more information, try '--help'.\n" }
  | .help topic => { stdout := CommandLine.help topic }
  | version => { stdout := versionLine }

/-- A place as a document. -/
def spanDocument (s : Span) : Json := .object [("end", .nat s.stop), ("start", .nat s.start)]

/-- A diagnostic as a document. -/
def diagnosticDocument (d : Diagnostic) : Json :=
  .object [("kind", .string d.issue.stage.name), ("message", .string d.issue.message),
    ("severity", .string d.issue.severity.name), ("span", spanDocument d.span)]

/-- A suggestion as a document. -/
def suggestionDocument (s : Suggestion) : Json :=
  .object [("candidates", .array (s.candidates.map .string)), ("span", spanDocument s.span)]

/-- What was found in a file, as a document. -/
def reportDocument (r : SourceReport) : Json :=
  .object [("diagnostics", .object
      [("errors", .array (r.report.diagnostics.map diagnosticDocument)),
        ("suggestions", .array (r.report.suggestions.map suggestionDocument))]),
    ("path", .string r.path)]

/-- What came of a compilation, as a document. -/
def outcomeDocument (o : Outcome) : Json :=
  .object [("errors", .nat o.errorCount), ("files", .array (o.reports.map reportDocument)),
    ("functions", .nat o.pack.functions.length)]

/-- What is printed of a compilation: a document, or a line for each finding. -/
def Response.ofOutcome (o : Outcome) (json : Bool) : Response :=
  { exit := if o.errorCount = 0 then 0 else 1
    stdout := if json then (outcomeDocument o).pretty ++ "\n" else ""
    stderr := if json then "" else text (o.reports.flatMap SourceReport.rendered) }

/-- A text with blanks in front, up to a width. -/
def padLeft (width : Nat) (s : String) : String :=
  String.ofList (List.replicate (width - s.length) ' ') ++ s

/-- A text with blanks behind it, up to a width. -/
def padRight (width : Nat) (s : String) : String :=
  s ++ String.ofList (List.replicate (width - s.length) ' ')

/-- The line about a token. -/
def tokenLine (t : Located) : String :=
  padLeft 5 (toString t.span.start) ++ ".." ++ padRight 5 (toString t.span.stop) ++ " " ++
    t.token.describe

/-- What is printed of the tokens of a file. -/
def tokensResponse (path source : String) : Response :=
  let (tokens, issues) := tokenize source
  { exit := if issues.any Diagnostic.isError then 1 else 0
    stdout := text (tokens.map tokenLine)
    stderr := text (issues.map fun d => path ++ ": " ++ d.render source) }

variable {m : Type → Type} [Monad m] [MonadFiles m]

/-- The settings for some source files: those of the settings file, which lies beside the first
source if none is named, and what the arguments say. -/
def resolve (args : SourceArguments) : ExceptT Failure m Settings := do
  let dir := ((args.files.head?.bind Path.parent?).getD ".")
  let loaded ← Build.load (args.config.getD (Path.settings dir))
  let options :=
    { loaded.options with
      space := args.space.getD loaded.options.space
      objective := args.objective.getD loaded.options.objective }
  Build.validated { loaded with options, registry := args.registry.or loaded.registry }

/-- Compiles source files. -/
def compileSources (args : SourceArguments) : ExceptT Failure m (Settings × Outcome) := do
  let settings ← resolve args
  return (settings, ← Build.compileFiles args.files settings)

/-- Compiles source files and writes the pack. -/
def runBuild (args : SourceArguments) (out : Option String) (json : Bool) : m Response := do
  match ← (compileSources args).run with
  | .error _ => return { exit := 1 }
  | .ok (settings, outcome) =>
    let response := Response.ofOutcome outcome json
    let dir := out.getD settings.outputDir
    match ← (Build.writePack outcome.pack dir).run with
    | .error _ => return { response with exit := 1 }
    | .ok written =>
      if json then return response
      else return { response with stdout := s!"Wrote {written} file(s) to {dir}\n" }

/-- Does what the program is asked to do. -/
def perform (action : Action) (json : Bool) : m Response := do
  match action with
  | .build args out => runBuild args out json
  | .check args =>
    match ← (compileSources args).run with
    | .error _ => return { exit := 1 }
    | .ok (_, outcome) => return .ofOutcome outcome json
  | .tokens path =>
    match ← MonadFiles.read? path with
    | some source => return tokensResponse path source
    | none => return { exit := 1 }
  | .schema => return { stdout := Settings.schema.pretty ++ "\n" }

/-- Does what the arguments ask for. -/
def run (args : List String) : m Response :=
  match parse args with
  | .error refusal => return refusal.response
  | .ok invocation => perform invocation.action invocation.json

end Packwright.CommandLine
