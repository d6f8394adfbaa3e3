import Doctest.Shell.Machine

/-! Where paths lead for a process: into the tree, or to what it has open. -/
namespace Doctest.Shell

/-- What a path leads to. -/
inductive Place
  /-- A place in the tree, where there may be nothing. -/
  | path (p : Text)
  /-- A pipe, with what can be read from it. -/
  | pipe (stream : Nat) (unread : Source)
  /-- A text that the system keeps about a process. -/
  | note (contents : Text)
  /-- No place at all. -/
  | nowhere
deriving DecidableEq, Repr

namespace Machine

/-- The parts of a path from the root, unless it leads back in it. -/
def partsOf (m : Machine) (path : Text) : List String :=
  let parts := (Doctest.Text.splitOn '/' path).filter fun part => !part.isEmpty && part != ['.']
  let parts := if path.head? = some '/' then parts else m.home.map Octets.ofBytes ++ parts
  parts.map String.ofList

/-- A number as it is written without zeros before it. -/
def exactNumber? (s : String) : Option Nat :=
  (natOf? s.toList).filter fun n => digits n = s.toList

/-- The number of a process that has not ended, by itself or as the process's own. -/
def living? (m : Machine) (s : String) : Option Nat :=
  if s = "self" then some m.pid
  else (exactNumber? s).filter fun pid =>
    [1, m.pid, m.parent, m.shell].contains pid || m.system.isLiving pid

/-- The descriptor that the parts of a path name. Those of other processes are taken to be the same. -/
def descriptor? (m : Machine) : List String → Option Nat
  | ["dev", "stdin"] => some 0
  | ["dev", "stdout"] => some 1
  | ["dev", "stderr"] => some 2
  | ["dev", "fd", n] => exactNumber? n
  | ["proc", process, "fd", n] => if (m.living? process).isSome then exactNumber? n else none
  | _ => none

/-- The program that a process runs, if it is not the shell. Other processes are taken for shells. -/
def toolOf? (m : Machine) (pid : Nat) : Option (Text × List Text) :=
  if pid = m.pid then m.tool else none

/-- The least number from one on that is none of some others. -/
def leastFree (first : Nat) (ns : List Nat) : Nat :=
  ((List.range' first (ns.length + 1)).find? fun n => !ns.contains n).getD (first + ns.length)

/-- The directories in which a process finds what it has open. -/
def ownDirectories : List (List Bytes) :=
  [["dev", "fd"], ["proc", "self", "fd"]].map (·.map Bytes.ofString)

/-- The directory of what other processes have open, which are all taken to be the same. -/
def othersDirectory : List Bytes :=
  ["proc", "1", "fd"].map Bytes.ofString

/-- The numbers of what the process has open while it looks at them. -/
def openNumbers (m : Machine) : List Nat :=
  let withOwn := m.kept.foldl (fun ns _ => leastFree firstOwn ns :: ns) (m.descriptors.map (·.1))
  leastFree 0 withOwn :: withOwn

/-- The names in a directory. -/
def namesIn (m : Machine) (dir : List Bytes) : List Text :=
  if ownDirectories.contains dir then m.openNumbers.map digits
  else if dir = othersDirectory then (firstOwn :: m.shared.map (·.1)).map digits
  else
    m.files.entries.filterMap fun (path, _) =>
      if path.length = dir.length + 1 ∧ dir <+: path then path.getLast?.map Octets.ofBytes else none

/-- The name of a process by which the system knows it. -/
def title (m : Machine) (pid : Nat) : Text :=
  let script := (Doctest.Text.splitOn '/' m.name).getLastD []
  (((m.toolOf? pid).map (·.1)).getD script).take 15

/-- The words by which a process was called. -/
def callNote (m : Machine) (pid : Nat) : Text :=
  (((m.toolOf? pid).map (·.2)).getD m.call).flatMap (· ++ ['\x00'])

/-- Whether a process runs. The others are taken to wait for it. -/
def stateLetter (m : Machine) (pid : Nat) : Char :=
  if pid = m.pid then 'R' else 'S'

def parentOf (m : Machine) (pid : Nat) : Nat :=
  if pid = m.pid then m.parent else System.leader - 1

def groupOf (m : Machine) (pid : Nat) : Nat :=
  if pid = m.pid then m.group else (m.system.living.lookup pid).getD System.leader

/-- What the system notes about a process on one line: its number, its name, its state, and the numbers of
its parent, its group and its session. -/
def statNote (m : Machine) (pid : Nat) : Text :=
  let numbers := [m.parentOf pid, m.groupOf pid, 1] ++ List.replicate 46 0
  digits pid ++ textOf " (" ++ m.title pid ++ textOf ") " ++
    Doctest.Text.joinWith ' ' ([m.stateLetter pid] :: numbers.map digits) ++ ['\n']

/-- Signals as the bits of a number in the base of sixteen. -/
def signalSet (signals : List Nat) : Text :=
  let n := total ((signals.filter (0 < ·)).map fun s => Nat.pow 2 (s - 1))
  let ds := Nat.toDigits 16 n
  List.replicate (16 - ds.length) '0' ++ ds

/-- The signals that a process is prepared for by itself: a shell for interrupts and the ends of others. -/
def preparedFor (m : Machine) (pid : Nat) : List Nat :=
  match m.toolOf? pid with
  | some (name, _) => if name = textOf "grep" then [11] else []
  | none => [2, 17]

/-- What the system notes about a process on lines of their own. -/
def statusNote (m : Machine) (pid : Nat) : Text :=
  let four : Text := textOf "0\t0\t0\t0"
  let mask := Nat.toDigits 8 m.mask
  let ignored := (m.traps.filter (·.2.isEmpty)).map (·.1)
  let trapped := (m.traps.filter fun t => !t.2.isEmpty && pid = m.pid).map (·.1)
  let caught := (m.preparedFor pid ++ trapped).eraseDups
  let fields : List (String × Text) :=
    [("Name", m.title pid), ("Umask", List.replicate (4 - mask.length) '0' ++ mask),
      ("State", textOf (if pid = m.pid then "R (running)" else "S (sleeping)")), ("Tgid", digits pid),
      ("Ngid", ['0']), ("Pid", digits pid), ("PPid", digits (m.parentOf pid)), ("TracerPid", ['0']),
      ("Uid", four), ("Gid", four), ("FDSize", textOf "64"), ("Groups", textOf " "),
      ("NSpgid", digits (m.groupOf pid)), ("Threads", ['1']), ("SigPnd", signalSet []),
      ("ShdPnd", signalSet []), ("SigBlk", signalSet []), ("SigIgn", signalSet ignored),
      ("SigCgt", signalSet (caught.filter (!ignored.contains ·)))]
  unlinesOf (fields.map fun (name, value) => textOf (name ++ ":\t") ++ value)

/-- The path of what a stream leads to in the tree, or the pipe. -/
def placeOfStream (m : Machine) (n : Nat) : Place :=
  match m.system.stream n with
  | .pipe .. => .pipe n (m.system.unread n)
  | .file names .. => .path ('/' :: Doctest.Text.joinWith '/' (names.map Octets.ofBytes))

def place (m : Machine) (path : Text) : Place :=
  let parts := m.partsOf path
  match m.descriptor? parts, parts with
  | some fd, _ =>
    if path.getLast? = some '/' then .nowhere
    else ((m.handle? fd).map fun h => m.placeOfStream h.stream).getD .nowhere
  | none, ["proc", process, "stat"] => noted process m.statNote
  | none, ["proc", process, "status"] => noted process m.statusNote
  | none, ["proc", process, "comm"] => noted process fun n => m.title n ++ ['\n']
  | none, ["proc", process, "cmdline"] => noted process m.callNote
  | none, ["proc", process] => .path (if (m.living? process).isSome then textOf "/proc/self" else path)
  | none, ["proc", process, "fd"] =>
    match m.living? process with
    | some n => .path (textOf (if n = m.pid then "/proc/self/fd" else "/proc/1/fd"))
    | none => .path path
  | none, _ => .path path
where
  noted (process : String) (note : Nat → Text) : Place :=
    ((m.living? process).map fun n => .note (note n)).getD .nowhere

/-- What a link leads to, as it is written in the link. -/
def link? (m : Machine) (path : Text) : Option Text :=
  let parts := m.partsOf path
  if path.getLast? = some '/' then none
  else
    match parts, m.descriptor? parts, m.place path with
    | ["dev", _], some fd, _ => some (textOf "/proc/self/fd/" ++ digits fd)
    | ["dev", "fd"], _, _ => some (textOf "/proc/self/fd")
    | ["proc", "self"], _, _ => some (digits m.pid)
    | _, some _, .path p => some p
    | _, some _, .pipe n _ => some (textOf "pipe:[" ++ digits n ++ [']'])
    | ["bin"], _, _ => some (textOf "usr/bin")
    | _, _, _ => none

/-- What stands at a path, unless it is a pipe. -/
def entry? (m : Machine) (path : Text) : Option FileEntry :=
  match m.place path with
  | .path p => (m.files.find (pathOf p)).toOption
  | .note contents => some (.file (Octets.toBytes contents) false)
  | .pipe .. | .nowhere => none

def isPipe (m : Machine) (path : Text) : Bool :=
  match m.place path with
  | .pipe .. => true
  | _ => false

def isPresent (m : Machine) (path : Text) : Bool :=
  (m.entry? path).isSome || m.isPipe path

/-- The paths that a name of a program may stand for, in the order in which they are tried. If nothing is
said of them, only a process that is no shell knows where to look. -/
def candidates (m : Machine) (name : Text) : List Text :=
  let dirs := match m.valueOf? "PATH".toList with
    | some dirs => Doctest.Text.splitOn ':' dirs
    | none => if m.tool.isSome then [textOf "/bin", textOf "/usr/bin"] else []
  dirs.map fun dir => if dir.isEmpty then name else dir ++ '/' :: name

/-- Whether a path leads to a file that can be run. -/
def isProgram (m : Machine) (path : Text) : Bool :=
  match m.files.find (pathOf path) with
  | .ok (.file _ isExecutable) => isExecutable
  | _ => false

/-- What can be read at a path. -/
def sourceAt (m : Machine) (path : Text) : Except FileError Source := do
  match m.place path with
  | .pipe _ unread => pure unread
  | .note contents => pure (.ofText contents)
  | .nowhere => .error .notFound
  | .path p =>
    match ← m.files.find (pathOf p) with
    | .directory => .error .isDirectory
    | .device .terminal => .error .noDevice
    | .device d => pure (.ofDevice d)
    | .file contents _ => pure (.ofText (Octets.ofBytes contents))

end Machine

end Doctest.Shell
