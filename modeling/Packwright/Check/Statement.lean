import Packwright.Check.Expression
import Packwright.Pack.Basic
import Packwright.Tree.Stmt

/-!
# Checking statements

`Script.check` says what is wrong with a script.  Functions and enumerations are known before their
declarations, variables only after them.
-/

namespace Packwright

/-- What is wrong with the entity of a command and its data. -/
def Context.checkEntity (c : Context) (entity : Expr) (data : Option Expr) : Report :=
  match entity.resource? with
  | none => {}
  | some id =>
    (c.checkId Registry.entities "entity" id entity.span).append
      (match data with
        | none => {}
        | some e =>
          match e.withoutCasts with
          | .compound _ entries =>
            c.checkKeys Registry.entities id e.span (entries.map fun (key, v) => (key, v.kind))
          | _ => {})

/-- What is wrong with a command. -/
def Command.check (c : Context) : Command → Report
  | say e | raw e => e.check c
  | tellraw target parts => (target.check c).append (Expr.checkAll c parts)
  | give target item count =>
    ((target.check c).append (item.check c)).append (Expr.checkOption c count)
  | tag target _ _ => target.check c
  | kill target => Expr.checkOption c target
  | summon entity data =>
    ((entity.check c).append (Expr.checkOption c data)).append (c.checkEntity entity data)

/-- What is wrong with an annotation. -/
def Annotation.check (a : Annotation) : Report :=
  if (Tag.ofName? a.name).isSome then {}
  else .single (.unknownMarker a.name) a.span [Tag.load.name, Tag.tick.name]

/-- A report, and the context with a variable declared behind it. -/
def Context.andDeclare (c : Context) (r : Report) (declared : Declared) : Report × Context :=
  let (s, c) := c.declare declared.name declared.span
  (r.append s, c)

mutual

/-- What is wrong with a statement, and the context behind it. -/
def Stmt.check (c : Context) : Stmt → Report × Context
  | .letBinding _ declared value => c.andDeclare (value.check c) declared
  | .var _ declared value _ => c.andDeclare (Expr.checkOption c value) declared
  | .assign _ target _ value _ =>
    let targets : Report :=
      if !target.isError && target.kind ≠ .score then
        .single (.notAssignable target.ty) target.span []
      else {}
    (((target.check c).append (value.check c)).append targets, c)
  | .expr _ e => (e.check c, c)
  | .block _ body => (checkBody c.enter body, c)
  | .ifElse _ e thenBranch none =>
    ((e.checkCondition c).append (thenBranch.check c.enter).1, c)
  | .ifElse _ e thenBranch (some elseBranch) =>
    (((e.checkCondition c).append (thenBranch.check c.enter).1).append
      (elseBranch.check c.enter).1, c)
  | .while _ e body => ((e.checkCondition c).append (body.check c.enter).1, c)
  | .function _ _ annotations body =>
    (((annotations.map Annotation.check).foldl Report.append {}).append
      (checkBody c.enterFunction body), c)
  | .enum _ _ _ => ({}, c)
  | .context _ _ e body => ((e.check c).append (body.check c.enter).1, c)
  | .command _ command => (command.check c, c)
  | .return span =>
    (if c.inFunction then {} else Report.single .returnOutsideFunction span [], c)
  | .error _ => ({}, c)

/-- What is wrong with the statements of a body. -/
def checkBody (c : Context) : List Stmt → Report
  | [] => {}
  | s :: ss =>
    let (r, c) := s.check c
    r.append (checkBody c ss)

end

namespace Context

/-- The context with a function or an enumeration declared, unless its name is in use. -/
def declareGlobal (c : Context) (declared : Declared) (kind : GlobalKind) : Report × Context :=
  match c.globals.get? declared.name with
  | some other => (Report.single (.alreadyDeclared declared.name other) declared.span [], c)
  | none => ({}, { c with globals := c.globals.put declared.name kind })

/-- The context with the variants of an enumeration; the first enumeration of a name counts. -/
def declareVariants (c : Context) (name : String) (variants : List String) : Context :=
  if c.enums.has name then c else { c with enums := c.enums.put name variants }

/-- The context with the functions and enumerations of a script. -/
def declareGlobals (c : Context) : List Stmt → Report × Context
  | [] => ({}, c)
  | s :: ss =>
    let (r, c) : Report × Context :=
      match s with
      | .function _ declared _ _ => c.declareGlobal declared .function
      | .enum _ declared variants =>
        (c.declareVariants declared.name variants).declareGlobal declared .enumeration
      | _ => ({}, c)
    let (t, c) := c.declareGlobals ss
    (r.append t, c)

end Context

/-- What is wrong with a script. -/
def Script.check (s : Script) (registry : Registry) : Report :=
  let (r, c) := Context.declareGlobals ⟨registry, [], [], [[]], false⟩ s.body
  r.append (checkBody c s.body)

end Packwright
