import Doctest.Shell.Utility

/-! Which program is run when a file is executed. -/
namespace Doctest.Shell

/-- A program of the system with its name as it was called and its arguments. -/
structure Program where
  utility : Text
  name : Text
  args : List Text
deriving DecidableEq, Repr

namespace Program

def shells : List String :=
  ["sh", "dash", "bash", "ash"]

def isShell (name : Text) : Bool :=
  shells.any fun s => s.toList == name

/-- Programs that run others, or that wait. -/
def special : List String :=
  ["env", "sleep", "setsid", "nohup", "nice", "stdbuf", "timeout", "xargs"]

/-- The names of all programs of the system. -/
def installed : List String :=
  shells ++ special ++ (Utility.filters ++ Utility.others).map (·.1)

def isKnown (name : Text) : Bool :=
  installed.any fun s => s.toList == name

/-- The program of the system that a file is. -/
def ofContents? (contents : Text) : Option Text :=
  let mark := Octets.ofBytes FileTree.programMark
  let name := contents.drop mark.length
  if contents.take mark.length = mark ∧ isKnown name then some name else none

/-- What the parts of the first line stand apart by. -/
def isGap (c : Char) : Bool :=
  c = ' ' || c = '\t'

/-- So much of a file is looked at to find its interpreter. -/
def headSize : Nat := 256

/-- The interpreter that a first line names after its mark, and at most one argument. A line that does
not end in time must at least show the end of the name. A null character ends both. -/
def interpreter? (contents : Text) : Option (Text × Option Text) :=
  if contents.take 2 ≠ ['#', '!'] then none
  else
    let head := (contents.take headSize).drop 2
    let line := head.takeWhile fun c => c != '\n' && c != '\x00'
    let isCut := line.length + 2 = headSize
    let isEnded := head[line.length]? = some '\n'
    let body := line.dropWhile isGap
    let path := body.takeWhile (!isGap ·)
    if (isCut ∧ path.length = body.length) ∨ (isEnded ∧ body.isEmpty) then none
    else
      let rest := body.drop path.length
      let argument := (if isCut then rest.dropLast else rest).dropWhile isGap
      let argument :=
        if isCut ∨ isEnded then (argument.reverse.dropWhile isGap).reverse else argument
      some (path, if argument.isEmpty then none else some argument)

/-- Interpreters that are scripts themselves are followed so many times. -/
def maxScripts : Nat := 5

/-- The contents of the file at a path that is to be executed. A path without a name is the directory
at hand. -/
def opened (files : FileTree) (path : Text) : Except FileError Text := do
  let names ← files.resolve (pathOf (if path.isEmpty then ['.'] else path))
  match files.at? names with
  | some (.file contents true) => .ok (Octets.ofBytes contents)
  | some _ => .error .permissionDenied
  | none => .error .notFound

/-- Follows a file that is to be executed to a program of the system, which is called by a name. A script
is an argument of its interpreter. -/
def ofFile (files : FileTree) : (left : Nat) → (path name : Text) → List Text → Except FileError Program
  | left, path, name, args => do
    let contents ← opened files path
    match ofContents? contents, interpreter? contents, left with
    | some utility, _, _ => .ok ⟨utility, name, args⟩
    | none, none, _ => .error .badFormat
    | none, some (interpreter, argument), left + 1 =>
      ofFile files left interpreter interpreter (argument.toList ++ path :: args)
    | none, some (interpreter, _), 0 => do
      let _ ← opened files interpreter
      .error .loop

/-- The program at the first of some paths that leads to one. The last reason that there is none is given,
but for that of a path which leads nowhere. -/
def first (look : Text → Except FileError Program) : (reason : FileError) → List Text →
    Except FileError Program
  | reason, [] => .error reason
  | reason, path :: rest =>
    match look path with
    | .ok p => .ok p
    | .error .badFormat => .error .badFormat
    | .error e => first look (if e = .notFound ∨ e = .notDirectory then reason else e) rest

/-- Looks for a program by its path or its name. -/
def search (m : Machine) (look : Text → Except FileError Program) (name : Text) (args : List Text) :
    Except FileError Program :=
  if (name :: args).any (·.contains '\x00') then .error .nulInCommand
  else if name.contains '/' then look name
  else if name.isEmpty then .error .notFound
  else first look .notFound (m.candidates name)

/-- The program that a path or a name leads to. -/
def find (m : Machine) (name : Text) (args : List Text) : Except FileError Program :=
  search m (fun path => ofFile m.files maxScripts path name args) name args

/-- The program that a path or a name leads to, where a file that is none is read by a shell. -/
def findOrRead (m : Machine) (name : Text) (args : List Text) : Except FileError Program :=
  search m (fun path =>
    match ofFile m.files maxScripts path name args with
    | .error .badFormat => .ok ⟨['s', 'h'], ['s', 'h'], path :: args⟩
    | found => found) name args

end Program

end Doctest.Shell
