import Packwright.Issue
import Packwright.Registry
import Packwright.Tree.Expr

/-!
# Checking expressions

The tree knows its types already; what is left to check is that names stand for something, and that
registries know what is named.  `Expr.check` says what is wrong with an expression in a context.
-/

namespace Packwright

/-- One diagnostic, with candidates for what should stand in its place. -/
def Report.single (issue : Issue) (span : Span) (candidates : List String) : Report :=
  (Report.add {} ⟨issue, span⟩).suggest span candidates

/-- What is known at a place of a script. -/
structure Context where
  registry : Registry
  /-- The functions and enumerations of the script. -/
  globals : Table String GlobalKind
  /-- The variants of the enumerations. -/
  enums : Table String (List String)
  /-- The variables, the innermost scope first, each in the order of declaration. -/
  scopes : List (List String) := [[]]
  inFunction : Bool := false

namespace Context

/-- Whether a variable is in scope. -/
def declares (c : Context) (name : String) : Bool := c.scopes.any (name ∈ ·)

/-- The variables in scope, each once, the latest first. -/
def visibleNames (c : Context) : List String :=
  (c.scopes.flatMap List.reverse).foldl
    (fun names n => if n ∈ names then names else names ++ [n]) []

/-- The functions of the script in alphabetical order. -/
def functionNames (c : Context) : List String :=
  ((c.globals.filter (·.2 = .function)).map Prod.fst).mergeSort fun a b => !(b < a)

/-- The context inside a new scope. -/
def enter (c : Context) : Context := { c with scopes := [] :: c.scopes }

/-- The context in the body of a function. -/
def enterFunction (c : Context) : Context := { c.enter with inFunction := true }

/-- The context with a variable declared, unless its scope has it already. -/
def declare (c : Context) (name : String) (span : Span) : Report × Context :=
  match c.scopes with
  | scope :: outer =>
    if name ∈ scope then (Report.single (.duplicateVariable name) span [], c)
    else ({}, { c with scopes := (scope ++ [name]) :: outer })
  | [] => ({}, c)

/-- Checks that an id is in a registry. -/
def checkId (c : Context) (registry what : String) (id : ResourceId) (span : Span) : Report :=
  if c.registry.has? registry id = some false then
    .single (.unknownId what id) span (c.registry.idsOf registry)
  else {}

/-- Checks one key of a compound against a schema. -/
def checkKey (schema : Table String Kind) (id : ResourceId) (span : Span) (key : String)
    (kind : Kind) : Report :=
  match schema.get? key with
  | none => .single (.unknownKey key id) span schema.keys
  | some want =>
    if kind ≠ .error && !Kind.accepts want kind then .single (.keyType key id want kind) span []
    else {}

/-- Checks the keys of a compound against what a registry knows of an id. -/
def checkKeys (c : Context) (registry : String) (id : ResourceId) (span : Span)
    (keys : List (String × Kind)) : Report :=
  match c.registry.schema? registry id with
  | none => {}
  | some schema => (keys.map fun (key, kind) => checkKey schema id span key kind).foldl .append {}

/-- Checks an item and its data. -/
def checkItem (c : Context) (id : ResourceId) (data : Option (List (String × Value)))
    (span : Span) : Report :=
  (c.checkId Registry.items "item" id span).append
    (match data with
      | none => {}
      | some entries =>
        c.checkKeys Registry.items id span (entries.map fun (key, v) => (key, v.kind)))

/-- Checks that a variant belongs to its enumeration. -/
def checkVariant (c : Context) (enum name : String) (span : Span) : Report :=
  match c.enums.get? enum with
  | none => .single (.unknownEnum enum) span c.enums.keys
  | some variants =>
    if name ∈ variants then {} else .single (.unknownVariant enum name) span variants

/-- Checks that a function of the script exists. -/
def checkCall (c : Context) (name : String) (span : Span) : Report :=
  if c.globals.get? name = some .function then {}
  else .single (.unknownFunction name) span c.functionNames

end Context

namespace Expr

mutual

/-- What is wrong with an expression. -/
def check (c : Context) : Expr → Report
  | literal i (.item id data) => c.checkItem id data i.span
  | literal _ _ => {}
  | name i n => if c.declares n then {} else .single (.unknownVariable n) i.span c.visibleNames
  | binary _ _ l r _ => (check c l).append (check c r)
  | unary _ _ e _ => check c e
  | cast _ e k =>
    (check c e).append
      (match k.target, e with
        | .item, literal i (.resource id) => c.checkItem id none i.span
        | _, _ => {})
  | range _ l h => (checkOption c l).append (checkOption c h)
  | list _ es => checkAll c es
  | compound _ es => checkEntries c es
  | member _ e _ _ as => (check c e).append (checkAll c as)
  | dataPath _ e _ => check c e
  | variant i enum n => c.checkVariant enum n i.span
  | call i (.here n) => c.checkCall n i.span
  | call _ (.elsewhere _) => {}
  | error _ => {}

/-- What is wrong with an expression, if there is one. -/
def checkOption (c : Context) : Option Expr → Report
  | none => {}
  | some e => check c e

/-- What is wrong with several expressions. -/
def checkAll (c : Context) : List Expr → Report
  | [] => {}
  | e :: es => (check c e).append (checkAll c es)

/-- What is wrong with the entries of a compound. -/
def checkEntries (c : Context) : List (String × Expr) → Report
  | [] => {}
  | (_, e) :: es => (check c e).append (checkEntries c es)

end

/-- What is wrong with the condition of a statement. -/
def checkCondition (c : Context) (e : Expr) : Report :=
  (e.check c).append
    (if !e.isError && e.kind ≠ .condition then .single (.notACondition e.ty) e.span [] else {})

/-- The id of a resource or an item that is written out. -/
def resource? (e : Expr) : Option ResourceId :=
  match e.withoutCasts with
  | literal _ (.resource id) => some id
  | literal _ (.item id _) => some id
  | _ => none

end Expr

end Packwright
