import Packwright.Files.Basic
import Packwright.Table

/-!
# File trees

A file system in memory.  A place in it is the list of names that lead there from the working
folder; what is outside of that folder begins with `..` or `/`.
-/

namespace Packwright

/-- A place in a file system. -/
abbrev Place := List String

/-- Files and folders. -/
structure FileTree where
  files : Table Place String := []
  folders : List Place := []
  deriving Repr

namespace FileTree

/-- Whether a step can be the name of a file. -/
def isName (step : String) : Bool := step.utf8ByteSize ≤ 255 && '\x00' ∉ step.toList

/-- Whether a place is a folder.  The working folder and those above it always are. -/
def isFolder (t : FileTree) (place : Place) : Bool :=
  place.all (fun step => step = ".." || step = "/") || place ∈ t.folders

/-- The place one step from a folder. -/
def follow (place : Place) (step : String) : Place :=
  if step = "" || step = "." then place
  else if step = ".." then
    match place.getLast? with
    | none | some ".." => place ++ [".."]
    | some "/" => place
    | some _ => place.dropLast
  else place ++ [step]

/-- Where a path starts, and its steps. -/
def start (path : String) : Place × List String :=
  if Path.isAbsolute path then (["/"], Path.steps path) else ([], Path.steps path)

/-- The place at the end of some steps, if all on the way are folders. -/
def walk (t : FileTree) (place : Place) : List String → Option Place
  | [] => some place
  | step :: steps =>
    if t.isFolder place && isName step then t.walk (follow place step) steps else none

/-- The place that a path leads to. -/
def locate? (t : FileTree) (path : String) : Option Place :=
  if path.isEmpty then none else t.walk (start path).1 (start path).2

/-- Whether there is something at a path. -/
def has (t : FileTree) (path : String) : Bool :=
  (t.locate? path).any fun place => t.isFolder place || t.files.has place

/-- The text of the file at a path. -/
def read? (t : FileTree) (path : String) : Option String :=
  (t.locate? path).bind t.files.get?

/-- Makes the folders along some steps: the tree, and the last folder unless a file is in
the way. -/
def makeFolders (t : FileTree) (place : Place) : List String → FileTree × Option Place
  | [] => (t, some place)
  | step :: steps =>
    let next := follow place step
    if !isName step || t.files.has next then (t, none)
    else if t.isFolder next then t.makeFolders next steps
    else { t with folders := t.folders ++ [next] }.makeFolders next steps

/-- Puts a text at a name in a folder.  It is written under another name first, which stays behind
if a folder has the right name. -/
def put (t : FileTree) (folder : Place) (name content : String) : FileTree × Bool :=
  let draft := folder ++ [name ++ ".tmp"]
  let place := folder ++ [name]
  if !isName (name ++ ".tmp") || t.isFolder draft then (t, false)
  else if t.isFolder place then ({ t with files := t.files.put draft content }, false)
  else ({ t with files := (t.files.erase draft).put place content }, true)

/-- The tree with one more file. -/
def plant (t : FileTree) (path content : String) : FileTree :=
  match Path.parent? path, Path.fileName? path with
  | some dir, some name =>
    match t.makeFolders (start dir).1 (start dir).2 with
    | (t, none) => t
    | (t, some folder) => { t with files := t.files.put (folder ++ [name]) content }
  | _, _ => t

/-- The tree of some files under their paths. -/
def ofFiles (files : List (String × String)) : FileTree :=
  files.foldl (fun t (path, content) => t.plant path content) {}

/-- Puts a text at a path. -/
def write (t : FileTree) (path content : String) : FileTree × Bool :=
  match Path.parent? path, Path.fileName? path with
  | some dir, some name =>
    match t.makeFolders (start dir).1 (start dir).2 with
    | (t, none) => (t, false)
    | (t, some folder) => t.put folder name content
  | _, _ => (t, false)

/-- The files in the working folder and below it, in the order of their paths. -/
def listing (t : FileTree) : List (String × String) :=
  let inside := t.files.filter fun (place, _) => !place.any fun step => step = ".." || step = "/"
  (inside.map fun (place, content) => ("/".intercalate place, content)).mergeSort
    fun a b => !(b.1 < a.1)

end FileTree

instance : MonadFiles (StateM FileTree) where
  exists? path := return (← get).has path
  read? path := return (← get).read? path
  write path content := modifyGet fun t => ((t.write path content).2, (t.write path content).1)

end Packwright
