import Doctest.Shell.Signal

/-! What all processes share: the files, the streams that they read and write, and the time. -/
namespace Doctest.Shell

/-- What a descriptor of a process leads to. -/
inductive Stream
  /-- What has been written to a pipe and not been read yet, and after it other texts, of which the newest
  comes first. -/
  | pipe (held : Source) (newest : List Text)
  /-- What stands under names in the tree, and the place in it from which it is read or written. On demand
  it is written at its end in any case. -/
  | file (names : List Bytes) (position : Nat) (isAppending : Bool)
deriving DecidableEq, Repr, Inhabited

/-- One end of a stream. -/
structure Handle where
  stream : Nat
  isWriting : Bool
deriving DecidableEq, Repr

/-- How a process came to its end. -/
inductive Ending
  | exited (status : Nat)
  | killed (signal : Nat)
deriving DecidableEq, Repr

/-- The status that a shell sees. -/
def Ending.status : Ending → Nat
  | exited status => status
  | killed signal => 128 + signal

/-- Which processes a signal is for. -/
inductive Target
  | process (pid : Nat)
  | group (leader : Nat)
deriving DecidableEq, Repr

structure System where
  files : FileTree
  streams : Array Stream
  /-- The time that has gone by, in milliseconds. -/
  clock : Nat
  /-- The ends of streams that are held outside the process that runs. -/
  held : List Handle
  /-- The other processes that have not ended, each with the leader of its group. -/
  living : List (Nat × Nat)
  ended : List (Nat × Ending)
  /-- Signals that are on their way. -/
  sent : List (Target × Nat)
  /-- Signals that have reached a process that prepared for them. -/
  caught : List (Nat × Nat)

namespace System

/-- The first process, which leads the group of those that it makes. -/
def leader : Nat := 1000

def start (files : FileTree) (streams : List Stream) : System where
  files := files
  streams := streams.toArray
  clock := 0
  held := []
  living := []
  ended := []
  sent := []
  caught := []

def isLiving (s : System) (pid : Nat) : Bool :=
  s.living.any (·.1 = pid)

/-- Adds a stream after the last one that the handles outside the process, or its own ones, lead to. -/
def addStream (s : System) (own : List Handle) (stream : Stream) : Nat × System :=
  let n := (s.held ++ own).foldl (fun n h => max n (h.stream + 1)) 0
  (n, { s with streams := (s.streams.extract 0 n).push stream })

def stream (s : System) (n : Nat) : Stream :=
  s.streams[n]?.getD (.file [] 0 false)

def setStream (s : System) (n : Nat) (stream : Stream) : System :=
  { s with streams := s.streams.modify n fun _ => stream }

/-- Whether no process but the one that runs writes to a stream. -/
def isClosed (s : System) (n : Nat) : Bool :=
  !s.held.contains ⟨n, true⟩

/-- Whether a process reads a stream. -/
def isRead (s : System) (n : Nat) : Bool :=
  s.held.contains ⟨n, false⟩

/-- What can be read from a stream. -/
def unread (s : System) (n : Nat) : Source :=
  match s.stream n with
  | .pipe held newest => held.append (.ofText newest.reverse.flatten)
  | .file names position _ =>
    match s.files.at? names with
    | some (.file contents _) => .ofText (Octets.ofBytes (contents.drop position))
    | some (.device d) => .ofDevice d
    | _ => .empty

/-- Leaves the rest of what could be read from a stream. -/
def leave (s : System) (n : Nat) (rest : Source) : System :=
  match s.stream n with
  | .pipe .. => s.setStream n (.pipe rest [])
  | .file names position isAppending =>
    let position := position + ((s.unread n).text.length - rest.text.length)
    s.setStream n (.file names position isAppending)

/-- Why nothing can be written to a stream. -/
def refusal? (s : System) (n : Nat) : Option FileError :=
  match s.stream n with
  | .pipe .. => none
  | .file names .. => if s.files.at? names = some (.device .full) then some .noSpace else none

/-- Bytes with others in the place of those at a position, and zeros before it where there are none. -/
def overwritten (old : Bytes) (position : Nat) (new : Bytes) : Bytes :=
  if position = old.length then old ++ new
  else
    old.take position ++ List.replicate (position - old.length) 0 ++ new ++ old.drop (position + new.length)

/-- Writes to a stream. -/
def write (s : System) (n : Nat) (out : Source) : System :=
  match s.stream n with
  | .pipe held newest =>
    s.setStream n (if out.isEndless then .pipe ((s.unread n).append out) []
      else .pipe held (out.text :: newest))
  | .file names position isAppending =>
    match s.files.at? names with
    | some (.file old isExecutable) =>
      let new := Octets.toBytes out.text
      let position := if isAppending then old.length else position
      let s := { s with files := s.files.set names (.file (overwritten old position new) isExecutable) }
      s.setStream n (.file names (position + new.length) isAppending)
    | _ => s

/-- What has been written to a pipe and not been read. -/
def written (s : System) (n : Nat) : Bytes :=
  Octets.toBytes (s.unread n).text

end System

end Doctest.Shell
