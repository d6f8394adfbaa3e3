import Doctest.Files.Tree
import Doctest.Toml.Document

/-! The manifest of a package: where it is, and the crate name that it declares. -/
namespace Doctest

inductive ManifestError
  | unreadable (e : ReadError)
  | invalid (file : Path)
deriving DecidableEq, Repr

def ManifestError.message : ManifestError → String
  | unreadable e => e.message
  | invalid file => "invalid manifest " ++ file.display

/-- The names in a manifest. -/
structure Manifest where
  package : Option String
  library : Option String
deriving DecidableEq, Repr

namespace Manifest

def fileName : Path :=
  .ofString "Cargo.toml"

def text? : TomlValue → Option String
  | .text s => some s
  | _ => none

/-- A record with a name is a table, or an array whose first item is the name. -/
def name? (absent : Option (Option String)) : TomlValue → Option (Option String)
  | .table _ fields =>
    match fields.lookup "name" with
    | some v => (text? v).map some
    | none => absent
  | .array items => (items.head?.bind text?).map some
  | .moment => absent
  | _ => none

/-- A package must have a name and a library need not. -/
def ofFields? (fields : TomlFields) : Option Manifest := do
  let package ← match fields.lookup "package" with
    | some v => name? none v
    | none => some none
  let library ← match fields.lookup "lib" with
    | some v => name? (some none) v
    | none => some none
  pure ⟨package, library⟩

def read? (source : String) : Option Manifest :=
  (TomlDocument.read? source.toList).bind ofFields?

/-- The library's name before the package's, as a name in source text. -/
def crateName? (m : Manifest) : Option String :=
  (m.library.or m.package).map fun name =>
    String.ofList (name.toList.map fun c => if c = '-' then '_' else c)

/-- The crate name that the manifest in a directory declares, if there is one. -/
def crateNameIn (t : FileTree) (dir : Path) : Except ManifestError (Option String) :=
  let file := dir.join fileName
  if t.isFile file then
    match t.readText file with
    | .error e => .error (.unreadable e)
    | .ok source =>
      match read? source with
      | some m => .ok m.crateName?
      | none => .error (.invalid file)
  else .ok none

/-- The nearest directory with a manifest, from `dir` upwards. -/
def findAbove? (t : FileTree) (dir : Path) : Option Path :=
  dir.ancestors.find? fun p => t.isFile (p.join fileName)

end Manifest

end Doctest
