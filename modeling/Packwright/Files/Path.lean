import Packwright.Pack.Assets
import Packwright.Text.Split

/-!
# Paths

Paths are texts with steps divided by `/`.  Empty steps and steps `.` lead nowhere, but a path that
begins with `.` keeps it.
-/

namespace Packwright.Path

/-- Whether a path does not depend on where it is used. -/
def isAbsolute (path : String) : Bool := path.toList.head? = some '/'

/-- The path that leads on from a base.  An absolute path leads away from it. -/
def join (base path : String) : String :=
  if isAbsolute path then path
  else if base.isEmpty || base.toList.getLast? = some '/' then base ++ path
  else base ++ "/" ++ path

/-- The texts between the strokes of a path. -/
def steps (path : String) : List String := (Text.splitAll '/' path.toList).map String.ofList

/-- The steps of a path, the last one first, from the last one on that leads anywhere. -/
def leading : List String → List String
  | [] => []
  | step :: before =>
    if step = "" || (step = "." && !before.isEmpty) then leading before else step :: before

/-- The path of the folder that a path is in. -/
def parent? (path : String) : Option String :=
  match leading (steps path).reverse with
  | [] => none
  | _ :: before =>
    match leading before with
    | [] => some (if isAbsolute path then "/" else "")
    | before => some ("/".intercalate before.reverse)

/-- The last step of a path, if it is a name. -/
def fileName? (path : String) : Option String :=
  match leading (steps path).reverse with
  | [] => none
  | step :: _ => if step = "." || step = ".." then none else some step

/-- The settings beside the sources in a folder. -/
def settings (dir : String) : String := join dir "datascript.json"

/-- The place of an asset below the root of the output. -/
def asset (root space category path extension : String) : String :=
  join ((steps category).foldl join (join (join root "data") space)) (path ++ "." ++ extension)

end Packwright.Path
