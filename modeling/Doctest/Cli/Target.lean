import Doctest.Cli.Options
import Doctest.Crate.Load
import Doctest.Crate.Manifest

/-! The crate that a command works on. -/
namespace Doctest.Cli

structure Target where
  crateName : String
  crate : LoadedCrate
deriving Repr

inductive TargetError
  | notThere (path : Path)
  | noRootFile (dir : Path)
  | noName (file : Path)
  | badManifest (e : ManifestError)
  | unreadable (e : ReadError)
deriving DecidableEq, Repr

def TargetError.message : TargetError → String
  | notThere path => path.display ++ " does not exist"
  | noRootFile dir => "no src/lib.rs or src/main.rs in " ++ dir.display
  | noName file => "cannot tell the crate name of " ++ file.display ++ "; pass --crate"
  | badManifest (.invalid file) => (ManifestError.invalid file).message ++ ": TOML parse error"
  | badManifest e => e.message
  | unreadable e => e.message

namespace Target

/-- Where the root file may be in the directory of a package. -/
def places : List Path :=
  ["src/lib.rs", "src/main.rs", "lib.rs"].map Path.ofString

/-- The file itself, or the first root file in the directory. -/
def rootFile (t : FileTree) (path : Path) : Except TargetError Path :=
  if t.isFile path then .ok path
  else if !t.isDirectory path then .error (.notThere path)
  else
    match (places.map path.join).find? t.isFile with
    | some file => .ok file
    | none => .error (.noRootFile path)

/-- The name of a file as a crate name. -/
def stemName? (file : Path) : Option String :=
  file.stem?.map fun stem =>
    String.ofList (stem.toStringLossy.toList.map fun c => if c = '-' then '_' else c)

/-- The name that the nearest manifest declares, or the name of the file. -/
def nameOf (t : FileTree) (file : Path) : Except TargetError String := do
  let dir := file.parent?.getD (.ofString ".")
  let declared ← match Manifest.findAbove? t dir with
    | some dir => (Manifest.crateNameIn t dir).mapError .badManifest
    | none => pure none
  match declared.or (stemName? file) with
  | some name => .ok name
  | none => .error (.noName file)

/-- Loads the crate that the options name, or that of the current directory. -/
def load (t : FileTree) (o : Options) : Except TargetError Target := do
  let file ← rootFile t (o.path.getD (.ofString "."))
  let name ← match o.crateName with
    | some name => pure name
    | none => nameOf t file
  let crate ← (LoadedCrate.load t file name).mapError .unreadable
  pure ⟨name, crate⟩

end Target

end Doctest.Cli
