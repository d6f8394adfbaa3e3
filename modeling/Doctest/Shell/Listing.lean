import Doctest.Shell.FileWork

/-! Programs that tell what files there are, and what is known of them. -/
namespace Doctest.Shell.Listing

def pwd (c : Call) : Option Reply :=
  some (c.reply (('/' :: Doctest.Text.joinWith '/' (c.files.home.map Octets.ofBytes)) ++ ['\n']) 0)

/-- What stands at a path. -/
inductive Kind
  | directory (names : List Bytes)
  | file (size : Nat) (isExecutable : Bool)
  | device
  | pipe

/-- What stands at the end of the links that a path leads through. -/
def kindAt (m : Machine) (path : Text) : Except FileError Kind := do
  match m.place path with
  | .pipe .. => .ok .pipe
  | .note _ => .ok (.file 0 false)
  | .nowhere => .error .notFound
  | .path p =>
    match ← m.files.find (pathOf p) with
    | .directory => .ok (.directory (← m.files.resolve (pathOf p)))
    | .file contents isExecutable => .ok (.file contents.length isExecutable)
    | .device _ => .ok .device

namespace Kind

def words : Kind → String
  | directory _ => "directory"
  | file 0 _ => "regular empty file"
  | file .. => "regular file"
  | device => "character special file"
  | pipe => "fifo"

def size : Kind → Nat
  | directory _ => 4096
  | file size _ => size
  | device | pipe => 0

/-- Who may read, write and execute. -/
def mode : Kind → String
  | directory _ | file _ true => "755"
  | file _ false => "644"
  | device => "666"
  | pipe => "600"

def isDirectory : Kind → Bool
  | directory _ => true
  | _ => false

/-- What is put behind a name to show the kind. -/
def mark : Kind → Text
  | directory _ => ['/']
  | file _ true => ['*']
  | pipe => ['|']
  | _ => []

end Kind

/-- The names in a directory, in order, without those that begin with a dot. -/
def namesIn (m : Machine) (dir : List Bytes) (withHidden : Bool) : List Text :=
  ((m.namesIn dir).filter fun name => withHidden || name.head? ≠ some '.').mergeSort inOrder

/-- The path of a name in a directory. -/
def below (dir name : Text) : Text :=
  if dir.getLast? = some '/' then dir ++ name else dir ++ '/' :: name

def lsTable : OptionTable where
  flags := ["a", "A", "c", "C", "d", "f", "F", "g", "G", "h", "i", "k", "l", "L", "m", "n", "N", "o", "p",
    "q", "Q", "r", "R", "s", "S", "t", "u", "U", "v", "x", "X", "1"]
  valued := ["I", "w", "T", "color", "sort", "time", "hide"]
  names := [("all", "a"), ("almost-all", "A"), ("directory", "d"), ("classify", "F"), ("reverse", "r"),
    ("recursive", "R"), ("ignore", "I")]
  isPlain := false

/-- The directories that are shown with a directory, each with its path. -/
def directoriesFrom (m : Machine) (withHidden : Bool) : (depth : Nat) → Text → List Text
  | 0, _ => []
  | depth + 1, path =>
    match kindAt m path with
    | .ok (.directory names) =>
      path :: (namesIn m names withHidden).flatMap fun name =>
        directoriesFrom m withHidden depth (below path name)
    | _ => []

def ls (c : Call) : Option Reply :=
  (c.withArgs (c.args.filter fun a => !"--color".toList.isPrefixOf a)).withOptions lsTable 2
    fun os operands =>
    let ordered (names : List Text) : List Text := if os.has "r" then names.reverse else names
    let operands := ordered ((if operands.isEmpty then [['.']] else operands).mergeSort inOrder)
    let found := operands.map fun o => (o, kindAt c.machine o)
    let missing := found.filterMap fun
      | (o, .error e) => some (FileWork.cannot "access" o e)
      | _ => none
    let marked (name : Text) (k : Except FileError Kind) : Text := match k with
      | .ok k =>
        if os.has "F" || (os.has "p" && k.isDirectory) then name ++ k.mark else name
      | .error _ => name
    let isWhole (k : Kind) : Bool := os.has "d" || !k.isDirectory
    let files := found.filterMap fun
      | (o, .ok k) => if isWhole k then some (marked o (.ok k)) else none
      | _ => none
    let tops := found.filterMap fun
      | (o, .ok k) => if isWhole k then none else some o
      | _ => none
    let withHidden := os.has "a" || os.has "A" || os.has "f"
    let dirs :=
      if os.has "R" then tops.flatMap (directoriesFrom c.machine withHidden (c.files.height + 1)) else tops
    let part (o : Text) : Text :=
      let inner := match kindAt c.machine o with
        | .ok (.directory names) => namesIn c.machine names withHidden
        | _ => []
      let all := (if os.has "a" then [['.'], ['.', '.']] else []) ++ inner
      let shown := all.map fun name => marked name (kindAt c.machine (below o name))
      (if 1 < operands.length || os.has "R" then o ++ [':', '\n'] else []) ++ unlinesOf (ordered shown)
    let out := ['\n'].intercalate ((if files.isEmpty then [] else [unlinesOf files]) ++ dirs.map part)
    some { c.reply out (if missing.isEmpty then 0 else 2) with complaints := missing }

/-- The path to the end of the links that a path leads through, where only the last part may be
missing. -/
def fullPath (m : Machine) (path : Text) : Except FileError Text := do
  match m.place path with
  | .path p =>
    let names ← m.files.resolve (pathOf p)
    .ok ('/' :: Doctest.Text.joinWith '/' (names.map Octets.ofBytes))
  | _ => (m.link? path).elim (.error .notFound) .ok

/-- The path without parts that lead nowhere else. Nothing need be there. -/
def plainPath (m : Machine) (path : Text) : Text :=
  let parts := (m.partsOf path).foldl (fun (parts : List String) part =>
    if part = ".." then parts.dropLast else parts ++ [part]) []
  '/' :: Doctest.Text.joinWith '/' (parts.map textOf)

/-- The path that options ask for. -/
def canonical (c : Call) (os : Options) (o : Text) : Except FileError Text :=
  if os.has "m" then .ok (plainPath c.machine o)
  else if os.has "e" then do
    let _ ← kindAt c.machine o
    fullPath c.machine o
  else fullPath c.machine o

/-- What links lead to. -/
def readlink (c : Call) : Option Reply :=
  let table : OptionTable := ⟨["e", "f", "m", "n", "q", "s", "v", "z"], [],
    [("canonicalize", "f"), ("no-newline", "n")], false⟩
  c.withOptions table 1 fun os operands =>
    let isFull := os.has "e" || os.has "f" || os.has "m"
    let found := operands.filterMap fun o =>
      if isFull then (canonical c os o).toOption else c.machine.link? o
    let out := if os.has "n" then found.flatten else unlinesOf found
    if operands.isEmpty then some (c.refuse (textOf "missing operand") 1)
    else some (c.reply out (if found.length = operands.length then 0 else 1))

def realpath (c : Call) : Option Reply :=
  let table : OptionTable := ⟨["e", "L", "m", "P", "q", "s", "z"], [], [], false⟩
  c.withOptions table 1 fun os operands =>
    let found := operands.map fun o => (o, canonical c os o)
    let failed := found.filterMap fun
      | (o, .error e) => some (Call.about o e.words)
      | _ => none
    let out := unlinesOf (found.filterMap (·.2.toOption))
    if operands.isEmpty then some (c.refuse (textOf "missing operand") 1)
    else some { c.reply out (if failed.isEmpty then 0 else 1) with complaints := failed }

/-- A line about a file in the form of a pattern, in which letters after a percent sign stand for what is
known of it. -/
def described (name : Text) (k : Kind) (isLink : Bool) : Text → Text
  | '%' :: letter :: rest =>
    let known : Text := match letter with
      | 'n' => name
      | 'F' => textOf (if isLink then "symbolic link" else k.words)
      | 's' => digits k.size
      | 'a' => textOf (if isLink then "777" else k.mode)
      | 'u' | 'g' => ['0']
      | 'U' | 'G' => textOf "root"
      | 'h' => ['1']
      | '%' => ['%']
      | _ => ['?']
    known ++ described name k isLink rest
  | c :: rest => c :: described name k isLink rest
  | [] => []

/-- Tells about files in a form that must be given. -/
def stat (c : Call) : Option Reply :=
  let table : OptionTable := ⟨["f", "L", "t"], ["c", "printf"],
    [("format", "c"), ("dereference", "L"), ("terse", "t")], false⟩
  c.withOptions table 1 fun os operands =>
    if operands.isEmpty then some (c.refuse (textOf "missing operand") 1)
    else
      let form := ((os.value? "c").or (os.value? "printf")).getD ['%', 'n']
      let found := operands.map fun o => (o, kindAt c.machine o)
      let lines := found.filterMap fun
        | (o, .ok k) => some (described o k (!os.has "L" && (c.machine.link? o).isSome) form)
        | _ => none
      let failed := found.filterMap fun
        | (o, .error e) => some (FileWork.cannot "statx" o e)
        | _ => none
      let out := if os.has "printf" then lines.flatten else unlinesOf lines
      some { c.reply out (if failed.isEmpty then 0 else 1) with complaints := failed }

end Doctest.Shell.Listing
