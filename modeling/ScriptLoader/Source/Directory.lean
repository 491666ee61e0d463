import ScriptLoader.Disk.Basic
import ScriptLoader.Source.Basic

/-!
# Texts below a directory

Locations name files below a root directory, and never one outside of it.

* `DirectorySource.pathOf`: the file of a location.
-/

namespace ScriptLoader

/-- A root directory. -/
structure DirectorySource where
  root : FilePath
  deriving DecidableEq, Inhabited

namespace DirectorySource

def ofText (root : String) : DirectorySource := ⟨FilePath.ofText root⟩

/-- The location without slashes in front. -/
def relativeText (location : String) : String :=
  String.ofList (location.toList.dropWhile (· = '/'))

/-- The path of the file at a location. -/
def pathOf (s : DirectorySource) (location : String) : Except RetrievalError String :=
  if Text.contains [':', '/', '/'] location.toList then
    .error (.accessDenied s!"'{location}' is not a local location")
  else
    let path := FilePath.ofText (relativeText location)
    if path.escapes then .error (.accessDenied s!"'{location}' escapes {s.root.text}")
    else .ok (FilePath.joinText s.root.text path.text)

/-- The text of the file at a location. -/
def retrieve (s : DirectorySource) (d : Disk) (location : String) : Except RetrievalError String :=
  match s.pathOf location with
  | .error e => .error e
  | .ok path =>
    match d.readText path with
    | .ok text => .ok text
    | .error .notFound => .error .notFound
    | .error fault => .error (.transport s!"failed to read {path}: {fault.text}")

def source (s : DirectorySource) (d : Disk) : Source := { retrieve := s.retrieve d }

end DirectorySource

end ScriptLoader
