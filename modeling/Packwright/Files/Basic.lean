import Packwright.Files.Path

/-!
# Access to files

What a build needs of a file system.  The operations give no reason when they fail.
-/

namespace Packwright

/-- Computations with access to files. -/
class MonadFiles (m : Type → Type) where
  /-- Whether there is something at a path. -/
  exists? : (path : String) → m Bool
  /-- The text of the file at a path. -/
  read? : (path : String) → m (Option String)
  /-- Puts a text at a path, and makes the folders on the way; says whether that was possible. -/
  write : (path content : String) → m Bool

instance {ε : Type} {m : Type → Type} [Monad m] [MonadFiles m] : MonadFiles (ExceptT ε m) where
  exists? path := ExceptT.lift (MonadFiles.exists? path)
  read? path := ExceptT.lift (MonadFiles.read? path)
  write path content := ExceptT.lift (MonadFiles.write path content)

end Packwright
