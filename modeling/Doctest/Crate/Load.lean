import Doctest.Crate.Warning
import Doctest.Files.Tree

/-! The outline of a whole crate, read from the file of its root and those of its modules. -/
namespace Doctest

/-- What reading a crate gave. The files are in the order in which they were read. -/
structure LoadedCrate where
  outline : Outline
  root : Nat
  files : List Path
  warnings : List SourceWarning
deriving Repr

namespace LoadedCrate

/-- A crate of which nothing has been read. -/
def start (name : String) : LoadedCrate :=
  let (root, outline) := Outline.empty.addRoot .crate name
  ⟨outline, root, [], []⟩

/-- The name that stands for a source text without a file. -/
def input : Path :=
  .ofString "<input>"

/-- The crate of one source text. Modules in other files stay empty. -/
def ofSource (name source : String) : LoadedCrate :=
  let c := start name
  let lexed := Lexed.ofString source
  let r := c.outline.readTokens c.root none source lexed.tokens
  { c with
    outline := r.outline
    warnings := SourceWarning.ofReading input (.ofString source) lexed r }

/-- A file, the element that its items belong to, and the directory of the modules it declares. -/
structure Source where
  file : Path
  id : Nat
  dir : Path
deriving DecidableEq, Repr

/-- The two places of a module's file, below the directory of the declaring file. -/
def candidates (dir : Path) (m : Outline.OutsideModule) : Path × Path × Path :=
  let base := m.inlinePath.foldl (fun p name => p.join (.ofString name)) dir
  let inner := base.join (.ofString m.name)
  (base.join (.ofString (m.name ++ ".rs")), inner.join (.ofString "mod.rs"), inner)

/-- The file of a module, or a warning that there is none. -/
def locate (t : FileTree) (lines : LineMap) (s : Source) (m : Outline.OutsideModule) :
    Except SourceWarning Source :=
  let (flat, nested, dir) := candidates s.dir m
  if t.isFile flat then .ok ⟨flat, m.id, dir⟩
  else if t.isFile nested then .ok ⟨nested, m.id, dir⟩
  else .error (.missingModule m.name s.file (lines.lineOf m.span.start) [flat, nested])

/-- The text of a module's file, or a warning that it cannot be read. -/
def readModule (t : FileTree) (s : Source) : Except SourceWarning (Source × String) :=
  match t.readText s.file with
  | .ok text => .ok (s, text)
  | .error e => .error (.fault s.file 1 (.unreadable e))

def oks {ε α : Type} (xs : List (Except ε α)) : List α :=
  xs.filterMap fun | .ok a => some a | .error _ => none

def errors {ε α : Type} (xs : List (Except ε α)) : List ε :=
  xs.filterMap fun | .ok _ => none | .error e => some e

/-- Reads one file into the crate, and finds the files of the modules that it declares. -/
def readFile (t : FileTree) (c : LoadedCrate) (s : Source) (text : String) :
    LoadedCrate × List (Source × String) :=
  let lines := LineMap.ofString text
  let lexed := Lexed.ofString text
  let r := c.outline.readTokens s.id (some s.file) text lexed.tokens
  let located := r.modules.map (locate t lines s)
  let found := (oks located).map (readModule t)
  ({ c with
      outline := r.outline
      files := c.files ++ [s.file]
      warnings := c.warnings ++ SourceWarning.ofReading s.file lines lexed r ++
        errors located ++ errors found },
    oks found)

/-- Reads a file and the files of the modules in it, nested at most `levels` deep, the module that is
declared last before the others. A file that has been read is not read again. -/
def readFiles (t : FileTree) : (levels : Nat) → LoadedCrate → Source × String → LoadedCrate
  | 0, c, _ => c
  | levels + 1, c, (s, text) =>
    if c.files.any (·.isSame s.file) then c
    else
      let (c, found) := c.readFile t s text
      found.reverse.foldl (fun c next => readFiles t levels c next) c

/-- The directory of a root file. -/
def rootDir (file : Path) : Path :=
  match file.parent? with
  | some dir => if dir.isEmpty then .ofString "." else dir
  | none => .ofString "."

/-- Reads a crate from its root file. A module lies deeper in the tree than the one that declares it,
so the height of the tree bounds their nesting. -/
def load (t : FileTree) (rootFile : Path) (name : String) : Except ReadError LoadedCrate := do
  let text ← t.readText rootFile
  let c := start name
  pure (readFiles t (t.height + 2) c (⟨rootFile, c.root, rootDir rootFile⟩, text))

end LoadedCrate

end Doctest
