import Packwright.CommandLine.Run

/-!
# The program
-/

namespace Packwright

/-- The outcome of an action, if it succeeds. -/
def attempt {α : Type} (act : IO α) : IO (Option α) := do
  match ← act.toBaseIO with
  | .ok a => return some a
  | .error _ => return none

instance : MonadFiles IO where
  exists? path := do
    if path.isEmpty then return false
    ((← IO.currentDir) / path).pathExists
  read? path := do
    if path.isEmpty then return none
    attempt (IO.FS.readFile path)
  write path content := do
    let done ← attempt do
      let draft := Path.join ((Path.parent? path).getD "") ((Path.fileName? path).getD "" ++ ".tmp")
      match Path.parent? path with
      | some dir => if !dir.isEmpty then IO.FS.createDirAll dir
      | none => pure ()
      IO.FS.writeFile draft content
      IO.FS.rename draft path
    return done.isSome

end Packwright

/-- Runs the program. -/
def main (args : List String) : IO UInt32 := do
  let response ← Packwright.CommandLine.run args
  IO.print response.stdout
  IO.eprint response.stderr
  return response.exit.toUInt32
