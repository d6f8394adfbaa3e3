import Doctest.Files.Tree

/-! The directory that units are compiled into. -/
namespace Doctest

/-- An owned directory is deleted when it is released. -/
structure Workspace where
  path : Path
  isOwned : Bool
deriving DecidableEq, Repr

namespace Workspace

/-- A directory that belongs to someone else. -/
def given (path : Path) : Workspace :=
  ⟨path, false⟩

/-- What is used where no directory can be made. -/
def fallback : Workspace :=
  given (.ofString ".")

def freshName (n : Nat) : Path :=
  .ofString ("docsnip-" ++ toString n)

/-- The parent as a path from the root. -/
def fromRoot (t : FileTree) (p : Path) : Path :=
  Path.join ⟨Path.slash :: Text.joinWith Path.slash t.home⟩ p

/-- Makes a new directory in `parent`, under the first name that is free. -/
def acquireIn (t : FileTree) (parent : Path) : Workspace × FileTree :=
  let parent := fromRoot t parent
  let paths := (List.range (t.entries.length + 1)).map fun n => parent.join (freshName n)
  match t.isDirectory parent, paths.find? (!t.exists? ·) with
  | true, some path =>
    match t.resolve path with
    | .ok names => (⟨path, true⟩, t.set names .directory)
    | .error _ => (fallback, t)
  | _, _ => (fallback, t)

/-- Deletes an owned directory. It is not owned any more then. -/
def release (t : FileTree) (w : Workspace) : Workspace × FileTree :=
  if w.isOwned then
    match t.resolve w.path with
    | .ok names => ({ w with isOwned := false }, t.remove names)
    | .error _ => ({ w with isOwned := false }, t)
  else (w, t)

end Workspace

end Doctest
