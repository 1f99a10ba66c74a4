import Packwright.Check.Statement
import Packwright.Draft.Statement
import Packwright.Token.Stream
import Packwright.Tree.Statement

/-!
# From sources to packs

`analyze` reads a source and says what is wrong with it, `compile` makes a pack of it as well.  A
pack is always made: what could not be read or resolved leaves no commands.
-/

namespace Packwright

/-- The tree of a source and all that is wrong with it, in the order of the stages. -/
def analyze (source : String) (registry : Registry) : Script × Report :=
  let (tokens, issues) := tokenize source
  let (script, report) := parseScript tokens
  (script, (Report.append ⟨issues, []⟩ report).append (script.check registry))

/-- The pack of a source and all that is wrong with it. -/
def compile (source : String) (options : Options) (registry : Registry) : Pack × Report :=
  let (script, report) := analyze source registry
  let (issues, draft) := (Draft.empty options).addScript script
  (draft.finish, report.append ⟨issues, []⟩)

/-- What is wrong with one of several sources: before generation, and in it. -/
structure Findings where
  front : Report
  back : List Diagnostic

/-- Adds sources to a draft. -/
def Draft.addSources (registry : Registry) : Draft → List String → List Findings × Draft
  | d, [] => ([], d)
  | d, source :: sources =>
    let (script, front) := analyze source registry
    let (back, d) := d.addScript script
    let (findings, d) := d.addSources registry sources
    (⟨front, back⟩ :: findings, d)

/-- The pack of several sources and all that is wrong with each. -/
def compileAll (sources : List String) (options : Options) (registry : Registry) :
    Pack × List Findings :=
  let (findings, draft) := (Draft.empty options).addSources registry sources
  (draft.finish, findings)

end Packwright
