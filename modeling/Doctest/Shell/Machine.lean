import Doctest.Shell.System

/-! The state of a process that runs a shell: its variables, what it reads and writes, and whether it
goes on. -/
namespace Doctest.Shell

/-- What comes after the command that was run last. -/
inductive Flow
  | next
  /-- Loops are left, or the outermost of them begins its next round. -/
  | leave (levels : Nat) (again : Bool)
  /-- A function or a script that was read in is left. -/
  | giveBack
  | exit
  /-- An error ends the shell, unless it is one of a command that keeps its errors to itself. -/
  | failed
  | killed (signal : Nat)
deriving DecidableEq, Repr

structure Variable where
  value : Option Text
  isExported : Bool
  isReadOnly : Bool
deriving DecidableEq, Repr

/-- A process that runs behind. -/
structure Job where
  number : Nat
  pid : Nat
  /-- Whether its end has been noticed, and whether somebody has waited for it. -/
  isNoticed : Bool
  isAwaited : Bool
deriving DecidableEq, Repr

/-- Where options are looked for next: in an argument, by its number, or in the rest of the one before
it, behind so many characters. -/
structure OptionPlace where
  index : Nat
  offset : Option Nat
deriving DecidableEq, Repr

namespace OptionPlace

def start : OptionPlace :=
  ⟨1, none⟩

end OptionPlace

structure Machine where
  system : System
  pid : Nat
  /-- The process that has made this one, and the one whose number scripts see. -/
  parent : Nat
  shell : Nat
  home : List Bytes
  descriptors : List (Nat × Handle)
  /-- Ends of streams that no descriptor leads to for the time being. -/
  kept : List Handle
  /-- The program of the system that runs, with the words by which it was called, unless it is the shell. -/
  tool : Option (Text × List Text)
  /-- The words by which the shell was called. -/
  call : List Text
  name : Text
  arguments : List Text
  optionPlace : OptionPlace
  values : List (Text × Variable)
  functions : List (Text × Command)
  /-- The variables of the functions that are running, as they were before. -/
  locals : List (List (Text × Option Variable))
  status : Nat
  /-- How the last command ended whose output was taken into the command at hand. -/
  taken : Option Nat
  /-- The line of the command at hand, and the line that is read next. -/
  line : Nat
  nextLine : Nat
  /-- The command of the shell that runs. -/
  builtin : Option Text
  /-- Options of one letter. -/
  settings : List Char
  isTested : Bool
  /-- The number of loops that run. -/
  loops : Nat
  /-- The status with which a process ends that is not told another one, while it leaves. -/
  leaving : Option Nat
  /-- The jobs, of which the newest comes first. -/
  jobs : List Job
  lastJob : Option Nat
  /-- What is done for a signal or, under zero, at the end. -/
  traps : List (Nat × Text)
  /-- The process that leads the group of this one. -/
  group : Nat
  /-- The rights that files are made without. -/
  mask : Nat
  flow : Flow

namespace Machine

/-- A process without anything but its number, its variables and its streams. -/
def start (system : System) (pid parent : Nat) (environment : List (Text × Text))
    (descriptors : List (Nat × Handle)) : Machine where
  system := system
  pid := pid
  parent := parent
  shell := pid
  home := system.files.home
  descriptors := descriptors
  kept := []
  tool := none
  call := []
  name := []
  arguments := []
  optionPlace := .start
  values := environment.map fun (name, value) => (name, ⟨some value, true, false⟩)
  functions := []
  locals := []
  status := 0
  taken := none
  line := 0
  nextLine := 0
  builtin := none
  settings := []
  isTested := false
  loops := 0
  leaving := none
  jobs := []
  lastJob := none
  traps := []
  group := System.leader
  mask := 0o022
  flow := .next

/-- The files as they are seen from the directory of the process. -/
def files (m : Machine) : FileTree :=
  { m.system.files with home := m.home }

/-- Users and where they are at home. -/
def homes : List (String × Text) :=
  [("root", textOf "/root")]

/-- The path of the directory of the process. -/
def homeText (m : Machine) : Text :=
  '/' :: Doctest.Text.joinWith '/' (m.home.map Octets.ofBytes)

def setFiles (m : Machine) (files : FileTree) : Machine :=
  { m with system := { m.system with files } }

def has (m : Machine) (setting : Char) : Bool :=
  m.settings.contains setting

def change (m : Machine) (setting : Char) (isOn : Bool) : Machine :=
  let others := m.settings.filter (· != setting)
  { m with settings := if isOn then others ++ [setting] else others }

/-- The ends of streams that the process holds. -/
def handles (m : Machine) : List Handle :=
  m.descriptors.map (·.2) ++ m.kept

def handle? (m : Machine) (fd : Nat) : Option Handle :=
  m.descriptors.lookup fd

def setHandle (m : Machine) (fd : Nat) (h : Option Handle) : Machine :=
  { m with
    descriptors := (h.map fun h => (fd, h)).toList ++ m.descriptors.filter (·.1 != fd) }

def valueOf? (m : Machine) (name : Text) : Option Text :=
  (m.values.lookup name).bind (·.value)

def isReadOnly (m : Machine) (name : Text) : Bool :=
  (m.values.lookup name).any (·.isReadOnly)

/-- Puts a variable in the place of the one of its name. -/
def putVariable (m : Machine) (name : Text) (v : Option Variable) : Machine :=
  { m with values := (v.map fun v => (name, v)).toList ++ m.values.filter (·.1 != name) }

/-- Gives a variable a value. It is exported as before, or in any case if all are. -/
def setVariable (m : Machine) (name value : Text) : Machine :=
  let isExported := (m.values.lookup name).any (·.isExported)
  m.putVariable name (some ⟨some value, isExported || m.has 'a', false⟩)

/-- The order in which options are shown by their letters. -/
def settingOrder : List Char :=
  "pubaCEVvxsnmiIfe".toList

/-- The value of a variable or of a special parameter, if it is set. -/
def parameter? (m : Machine) (name : Text) : Option Text :=
  match name with
  | ['#'] => some (digits m.arguments.length)
  | ['?'] => some (digits m.status)
  | ['$'] => some (digits m.shell)
  | ['!'] => m.lastJob.map digits
  | ['-'] => some (settingOrder.filter m.has)
  | ['@'] | ['*'] => some (Doctest.Text.joinWith ' ' m.arguments)
  | ['0'] => some m.name
  | _ =>
    match natOf? name with
    | some n => m.arguments[n - 1]?
    | none => m.valueOf? name

/-- Signals for which something is done. -/
def hasTraps (m : Machine) : Bool :=
  m.traps.any fun t => !t.2.isEmpty

/-- Here begin the descriptors that a shell keeps for itself. -/
def firstOwn : Nat := 10

/-- The descriptors that other processes are given. -/
def shared (m : Machine) : List (Nat × Handle) :=
  m.descriptors.filter (·.1 < firstOwn)

/-- The state of a process that is made to run a part of the script. -/
def part (m : Machine) : Machine :=
  { m with descriptors := m.shared, kept := [], jobs := [], traps := m.traps.filter (·.2.isEmpty) }

/-- The state of a process in which a program takes the place of the shell. -/
def program (m : Machine) : Machine :=
  { start m.system m.pid m.parent [] m.shared with
    home := m.home
    name := m.name
    call := m.call
    values := m.values.filter (·.2.isExported)
    traps := m.traps.filter (·.2.isEmpty)
    group := m.group
    mask := m.mask }

/-- Takes notice of the jobs that have ended. -/
def notice (m : Machine) : Machine :=
  { m with jobs := m.jobs.map fun j => { j with isNoticed := (m.system.ended.lookup j.pid).isSome } }

def hasJob (m : Machine) (pid : Nat) : Bool :=
  m.jobs.any (·.pid = pid)

/-- Takes it that somebody has waited for the jobs of some processes. -/
def markAwaited (m : Machine) (pids : List Nat) : Machine :=
  { m with jobs := m.jobs.map fun j => { j with isAwaited := j.isAwaited || pids.contains j.pid } }

/-- The least number that no job has which may not be forgotten. -/
def freeNumber (m : Machine) : Nat :=
  let taken := (m.jobs.filter fun j => !j.isAwaited).map (·.number)
  ((List.range' 1 (taken.length + 1)).find? fun n => !taken.contains n).getD 0

/-- Forgets the job in whose place a new one comes. -/
def makeRoom (m : Machine) : Machine :=
  { m with jobs := m.jobs.filter (·.number != m.freeNumber) }

/-- Adds a job. -/
def addJob (m : Machine) (pid : Nat) : Machine :=
  let n := m.freeNumber
  { m.makeRoom with jobs := ⟨n, pid, false, false⟩ :: m.makeRoom.jobs, lastJob := some pid }

/-- The separators of words that are not given. -/
def blanks : Text :=
  [' ', '\t', '\n']

/-- The characters at which values are split. -/
def separators (m : Machine) : Text :=
  (m.valueOf? ['I', 'F', 'S']).getD blanks

end Machine

end Doctest.Shell
