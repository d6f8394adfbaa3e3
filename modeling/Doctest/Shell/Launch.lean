import Doctest.Shell.Schedule

/-! Running a program among some files, and what is seen of it from outside. -/
namespace Doctest.Shell

/-- A program that has ended: how, what it wrote, and the files as it left them. A program that was
killed because its time was up has no ending of its own. -/
structure Finished where
  ending : Option Ending
  stdout : Bytes
  stderr : Bytes
  files : FileTree

/-- What a program is given. -/
structure Launch where
  program : Path
  args : List Bytes
  env : List (String × Bytes)
  /-- What it can read, if it is given anything. -/
  input : Option Bytes
  /-- The time that it may take, in milliseconds. -/
  limit : Option Nat
  /-- The time for which its output is read after its end, if other processes still hold it. -/
  patience : Option Nat

namespace Launch

/-- The streams of the first process: its input, its output and its errors. -/
def streams (l : Launch) : List Stream :=
  let input := match l.input with
    | some bytes => Stream.pipe (.ofText (Octets.ofBytes bytes)) []
    | none => .file FileTree.nullDevice 0 false
  [input, .pipe .empty [], .pipe .empty []]

def command (l : Launch) : List Text :=
  Octets.ofBytes l.program.bytes :: l.args.map Octets.ofBytes

/-- Where programs are looked for and where users are at home, if nothing else is said. -/
def usualVariables : List (String × String) :=
  [("PATH", "/usr/local/sbin:/usr/local/bin:/usr/sbin:/usr/bin:/sbin:/bin"), ("HOME", "/root")]

/-- The variables that the first process is given. -/
def environment (l : Launch) : List (Text × Text) :=
  let usual := usualVariables.filter fun (name, _) => (l.env.lookup name).isNone
  l.env.map (fun (name, value) => (textOf name, Octets.ofBytes value)) ++
    usual.map fun (name, value) => (textOf name, textOf value)

/-- The first process before its first turn. -/
def machine (l : Launch) (files : FileTree) : Machine :=
  .start (.start files l.streams) System.leader (System.leader - 1) l.environment
    [(0, ⟨0, false⟩), (1, ⟨1, true⟩), (2, ⟨2, true⟩)]

def schedule (l : Launch) (files : FileTree) : Schedule :=
  let m := l.machine files
  { system := m.system
    nextPid := System.leader + 1
    outside := [⟨1, false⟩, ⟨2, false⟩]
    tasks := [.start System.leader m (.program l.command)] }

/-- Reads on until nobody can write any more or patience has come to its end. -/
def drain (l : Launch) (s : Schedule) : Schedule :=
  s.runUntil (Schedule.isSilent [1, 2]) (l.patience.map (s.system.clock + ·)) Schedule.maxTurns

/-- Runs the program to its end, or says why it cannot be started. -/
def run (l : Launch) (files : FileTree) : Except FileError Finished := do
  let _ ← match l.command with
    | name :: args => Program.find (l.machine files) name args
    | [] => .error .notFound
  let first := l.schedule files
  let s := first.runUntil (Schedule.hasEnded System.leader) l.limit Schedule.maxTurns
  let ending := s.system.ended.lookup System.leader
  let s := l.drain (if ending.isSome then s else s.killGroup)
  pure ⟨ending, s.system.written 1, s.system.written 2, { s.system.files with home := files.home }⟩

end Launch

end Doctest.Shell
