import Doctest.Files.Error

/-! The files and directories that a command works on, and how a path leads to one of them. -/
namespace Doctest

/-- The devices that every system has. A full one takes nothing, and there is no terminal behind the one
that stands for it. -/
inductive Device
  | null | zero | full | random | terminal
deriving DecidableEq, Repr

/-- The byte that a device gives for ever, if it is not empty. -/
def Device.gives : Device → Option UInt8
  | null | terminal => none
  | zero | full | random => some 0

/-- What stands in a directory. -/
inductive FileEntry
  | directory
  | file (contents : Bytes) (isExecutable : Bool)
  | device (d : Device)
deriving DecidableEq, Repr

/-- Entries stand under the names that lead to them from the root, each at most once. Relative paths
start at the home directory. -/
structure FileTree where
  home : List Bytes
  entries : List (List Bytes × FileEntry)
deriving Repr

namespace FileTree

def parentName : Bytes :=
  [Path.dot, Path.dot]

/-- The longest name that an entry can have, in bytes. -/
def maxName : Nat := 255

/-- Paths have fewer bytes than this. -/
def maxPath : Nat := 4096

/-- The root is always a directory. -/
def at? (t : FileTree) (names : List Bytes) : Option FileEntry :=
  if names = [] then some .directory else t.entries.lookup names

/-- Puts an entry under the names, in place of the one that is there. -/
def set (t : FileTree) (names : List Bytes) (e : FileEntry) : FileTree :=
  { t with entries := (names, e) :: t.entries.filter (·.1 != names) }

/-- Removes an entry and all below it. -/
def remove (t : FileTree) (names : List Bytes) : FileTree :=
  { t with entries := t.entries.filter fun e => !names.isPrefixOf e.1 }

/-- Makes the directories that the names lead through, where there is nothing yet. -/
def makeDirectories (t : FileTree) (names : List Bytes) : FileTree :=
  (List.range' 1 names.length).foldl (fun t n =>
    let dir := names.take n
    if (t.at? dir).isSome then t else t.set dir .directory) t

/-- Where the programs of the system are. -/
def programDirectories : List (List Bytes) :=
  [[Bytes.ofString "usr", Bytes.ofString "bin"], [Bytes.ofString "bin"]]

/-- What a program of the system begins with. Its name follows. -/
def programMark : Bytes :=
  [0x7f, 0x45, 0x4c, 0x46]

def deviceNames : List (String × Device) :=
  [("null", .null), ("zero", .zero), ("full", .full), ("random", .random), ("urandom", .random),
    ("tty", .terminal), ("ptmx", .terminal)]

/-- The names of the device that is empty and swallows all. -/
def nullDevice : List Bytes :=
  [Bytes.ofString "dev", Bytes.ofString "null"]

/-- A tree with the devices and directories that every system has, and with the programs that are
installed. -/
def system (home : List Bytes) (programs : List String) : FileTree :=
  let names (path : List String) : List Bytes := path.map Bytes.ofString
  let installed := programDirectories.flatMap fun dir => programs.map fun name =>
    let name := Bytes.ofString name
    (dir ++ [name], FileEntry.file (programMark ++ name) true)
  let devices := deviceNames.map fun (name, d) => (names ["dev", name], FileEntry.device d)
  let dirs := programDirectories ++
    [["dev", "fd"], ["dev", "pts"], ["dev", "shm"], ["etc"], ["home"], ["proc", "1", "fd"],
      ["proc", "self", "fd"], ["root"], ["tmp"], ["usr", "lib"], ["usr", "local", "bin"], ["var", "tmp"]].map names
  (dirs ++ [home]).foldl makeDirectories ⟨home, devices ++ installed⟩

/-- Follows the parts of a path from a place. All but the last must lead to directories. -/
def walk (t : FileTree) (here : List Bytes) : List Bytes → Except FileError (List Bytes)
  | [] => .ok here
  | part :: rest =>
    match t.at? here with
    | none => .error .notFound
    | some .directory =>
      if part = [] ∨ part = [Path.dot] then t.walk here rest
      else if part = parentName then t.walk here.dropLast rest
      else if maxName < part.length then .error .nameTooLong
      else t.walk (here ++ [part]) rest
    | some _ => .error .notDirectory

/-- The names that a path leads to. The last of them need not be there. -/
def resolve (t : FileTree) (p : Path) : Except FileError (List Bytes) :=
  if 0 ∈ p.bytes then .error .nulInPath
  else if p.isEmpty then .error .notFound
  else if maxPath ≤ p.bytes.length then .error .nameTooLong
  else t.walk (if p.isAbsolute then [] else t.home) (Text.splitOn Path.slash p.bytes)

def find (t : FileTree) (p : Path) : Except FileError FileEntry := do
  let names ← t.resolve p
  match t.at? names with
  | some e => .ok e
  | none => .error .notFound

def isFile (t : FileTree) (p : Path) : Bool :=
  match t.find p with
  | .ok (.file ..) => true
  | _ => false

def isDirectory (t : FileTree) (p : Path) : Bool :=
  match t.find p with
  | .ok .directory => true
  | _ => false

def exists? (t : FileTree) (p : Path) : Bool :=
  match t.find p with
  | .ok _ => true
  | .error _ => false

def read (t : FileTree) (p : Path) : Except FileError Bytes := do
  match ← t.find p with
  | .file contents _ => .ok contents
  | .directory => .error .isDirectory
  | .device .terminal => .error .noDevice
  | .device _ => .ok []

/-- The text of a file, which must be UTF-8. -/
def readText (t : FileTree) (p : Path) : Except ReadError String :=
  match t.read p with
  | .error e => .error ⟨p, e⟩
  | .ok contents =>
    match contents.toString? with
    | some text => .ok text
    | none => .error ⟨p, .notText⟩

/-- Writes a file anew, or after what it holds. A new file is not executable. -/
def write (t : FileTree) (p : Path) (append : Bool) (contents : Bytes) :
    Except FileError FileTree := do
  let names ← t.resolve p
  match t.at? names with
  | some .directory => .error .isDirectory
  | some (.device .terminal) => .error .noDevice
  | some (.device _) => .ok t
  | some (.file old isExecutable) =>
    .ok (t.set names (.file (if append then old ++ contents else contents) isExecutable))
  | none => .ok (t.set names (.file contents false))

def setExecutable (t : FileTree) (p : Path) (isExecutable : Bool) : Except FileError FileTree := do
  let names ← t.resolve p
  match t.at? names with
  | some (.file contents _) => .ok (t.set names (.file contents isExecutable))
  | some _ => .ok t
  | none => .error .notFound

/-- The greatest number of names that lead to an entry. -/
def height (t : FileTree) : Nat :=
  (t.entries.map (·.1.length)).foldl max 0

theorem at?_set_self (t : FileTree) {names : List Bytes} (h : names ≠ []) (e : FileEntry) :
    (t.set names e).at? names = some e := by
  simp [at?, set, h]

theorem at?_set_of_ne (t : FileTree) {names other : List Bytes} (h : other ≠ names)
    (e : FileEntry) : (t.set names e).at? other = t.at? other := by
  simp only [at?, set, List.lookup_cons, beq_eq_false_iff_ne.mpr h]
  split
  · rfl
  · induction t.entries with
    | nil => rfl
    | cons x xs ih =>
      obtain ⟨k, v⟩ := x
      by_cases hk : k = names
      · subst hk
        simp [List.lookup_cons, beq_eq_false_iff_ne.mpr h, ih]
      · simp only [List.filter_cons, bne_iff_ne, ne_eq, hk, not_false_eq_true, if_true,
          List.lookup_cons, ih]

end FileTree

end Doctest
