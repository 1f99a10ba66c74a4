import Packwright.Draft.Command
import Packwright.Pack.Cleanup

/-!
# Generating from statements

`Draft.addScript` adds the commands of a script to a draft, `Draft.finish` makes the pack of it.
Several scripts can be added to one draft; they share its names and the main list.
-/

namespace Packwright

open Gen

/-- Writes the lines of a conditional without an alternative. -/
def generateWhen (condition : Condition) (lines : List String) : Gen Unit := do
  if lines.isEmpty then return
  let run ← asCommand "if" lines
  emitAll (← condition.lower run)

/-- Writes the lines of a conditional with an alternative.  The first branch raises the flag
`ran`, by which the second one knows that it has run: the branch may change what the condition
reads. -/
def generateEither (condition : Condition) (ran : Score) (thenLines elseLines : List String) :
    Gen Unit := do
  emit (Line.set ran 0)
  let id ← synthesize "if" (Line.set ran 1 :: thenLines)
  emitAll (← condition.lower (Line.call id))
  if elseLines.isEmpty then return
  let run ← asCommand "else" elseLines
  emit (Line.guardAmount true ran 1 run)

/-- Puts a function into the pack, under the tags of its annotations. -/
def addTagged (id : ResourceId) (annotations : List Annotation) (lines : List String) :
    Gen Unit := do
  addFunction id lines
  modify fun d =>
    { d with
      pack := (annotations.filterMap fun a => Tag.ofName? a.name).foldl (·.addTag · id) d.pack }

/-- Writes the lines of a loop.  Its list ends with the test, which calls the list again: the name
of the list is drawn first. -/
def generateLoop (condition : Gen (Option Condition)) (body : Gen Unit) : Gen Unit := do
  let id ← reserve "while"
  match ← capture condition with
  | (none, _) => return
  | (some c, setup) =>
    let guard ← c.lower (Line.call id)
    let (_, lines) ← capture body
    addFunction id (lines ++ setup ++ guard)
    emitAll setup
    emitAll guard

/-- Puts the lines of a function into the pack.  No function has the name of the main list. -/
def generateFunction (declared : Declared) (annotations : List Annotation) (body : Gen Unit) :
    Gen Unit := do
  let options := (← get).options
  if declared.name = options.main then complain (.reservedName declared.name) declared.span
  else
    let (_, lines) ← capture body
    addTagged ⟨options.space, declared.name⟩ annotations lines

mutual

/-- Writes the lines of a statement. -/
def Stmt.generate : Stmt → Gen Unit
  | .letBinding _ declared value => do
    match ← value.generate.run with
    | some v => bind declared.name v
    | none => return
  | .var _ declared value operation => do
    let initial ←
      match value with
      | some e => e.generate.run
      | none => pure none
    let score ← newVariable declared.name
    match initial, operation with
    | some v, some o => discard (o.rule.apply (.score score) v).run
    | _, _ => pure ()
    bind declared.name (.score score)
  | .assign _ target _ value operation => do
    match operation with
    | none => return
    | some o =>
      let left ← target.generate.run
      let right ← value.generate.run
      match left, right with
      | some l, some r => discard (o.rule.apply l r).run
      | _, _ => return
  | .expr _ e => discard e.generate.run
  | .block _ body => inScope (generateAll body)
  | .ifElse _ e thenBranch none => do
    match ← e.generateCondition.run with
    | none => return
    | some condition =>
      let (_, lines) ← capture (inScope thenBranch.generate)
      generateWhen condition lines
  | .ifElse _ e thenBranch (some elseBranch) => do
    match ← e.generateCondition.run with
    | none => return
    | some condition =>
      let (_, thenLines) ← capture (inScope thenBranch.generate)
      let ran ← temp "ranIf"
      let (_, elseLines) ← capture (inScope elseBranch.generate)
      generateEither condition ran thenLines elseLines
  | .while _ e body => generateLoop e.generateCondition.run (inScope body.generate)
  | .function _ declared annotations body =>
    generateFunction declared annotations (inScope (generateAll body))
  | .enum _ _ _ => return
  | .context _ kind e body => do
    match ← e.generateSelector.run with
    | none => return
    | some selector =>
      let (_, lines) ← capture (inScope body.generate)
      if lines.isEmpty then return
      let run ← asCommand kind.word lines
      emit (Line.within kind.word selector run)
  | .command _ command => discard command.generate.run
  | .return _ => emit Line.leave
  | .error _ => return

/-- Writes the lines of several statements. -/
def generateAll : List Stmt → Gen Unit
  | [] => return
  | s :: ss => do
    s.generate
    generateAll ss

end

namespace Draft

/-- Adds a script to a draft; what is wrong with it is returned. -/
def addScript (d : Draft) (script : Script) : List Diagnostic × Draft :=
  let (_, d) := (inScope (generateAll script.body)).run d
  (d.issues, { d with issues := [] })

/-- The id of the list that prepares the scoreboard. -/
def initId (options : Options) : ResourceId := ⟨options.space, options.generatedDir ++ "/init"⟩

/-- The main list, which is the outermost of the lists being written. -/
def mainLines (d : Draft) : List String := (d.frames.getLast?.map Array.toList).getD []

/-- The pack with the main list, if it has a line. -/
def withMain (d : Draft) : Pack :=
  if d.mainLines.isEmpty then d.pack
  else
    let id : ResourceId := ⟨d.options.space, d.options.main⟩
    (d.pack.addFunction id d.mainLines).addTag .load id

/-- The finished pack: the scoreboard is prepared first of all. -/
def finish (d : Draft) : Pack :=
  let init := initId d.options
  let pack :=
    (d.withMain.addFunction init [Line.addObjective d.options.objective]).addTagFirst .load init
  (if d.options.cleanup then pack.cleanup d.options.generatedDir else pack).retainTagged

end Draft

end Packwright
