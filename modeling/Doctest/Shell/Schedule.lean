import Doctest.Shell.Running

/-! Processes side by side: whose turn it is, when time goes by, and where signals go. -/
namespace Doctest.Shell

/-- A process that waits. -/
structure Task where
  pid : Nat
  machine : Machine
  need : Need
  next : System → Turn (Unit × Machine)

/-- The processes in the order in which they began to wait, and the ends of streams that are held by
none of them. -/
structure Schedule where
  system : System
  nextPid : Nat
  outside : List Handle
  tasks : List Task

namespace Task

/-- A process that begins with a command. -/
def start (pid : Nat) (m : Machine) (c : Command) : Task where
  pid := pid
  machine := { m with pid }
  need := .moment 0
  next system :=
    let run := Act.run maxDepth
    Act.runProcess run (run true c) { m with pid, system }

/-- A process that has run to its end without being killed has ended with its status. -/
def endingOf (m : Machine) : Ending :=
  match m.flow with
  | .killed signal => .killed signal
  | _ => .exited m.status

end Task

namespace Schedule

/-- The ends of streams that are held outside a process. -/
def heldBeside (s : Schedule) (pid : Nat) : List Handle :=
  s.outside ++ (s.tasks.filter (·.pid != pid)).flatMap (·.machine.handles)

def find? (s : Schedule) (pid : Nat) : Option Task :=
  s.tasks.find? (·.pid == pid)

def remove (s : Schedule) (pid : Nat) : Schedule :=
  { s with tasks := s.tasks.filter (·.pid != pid) }

def setSystem (s : Schedule) (system : System) : Schedule :=
  { s with system }

/-- Ends a process. -/
def finish (s : Schedule) (pid : Nat) (e : Ending) : Schedule :=
  (s.remove pid).setSystem { s.system with ended := (pid, e) :: s.system.ended }

/-- Whether nobody but the process itself can write to a stream. Only pipes can be written to while they
are read. -/
def isClosed (s : Schedule) (pid n : Nat) : Bool :=
  match s.system.stream n with
  | .pipe held _ => held.isEndless || !(s.heldBeside pid).contains ⟨n, true⟩
  | _ => true

def isMet (s : Schedule) (t : Task) : Bool :=
  match t.need with
  | .moment time => time ≤ s.system.clock
  | .ended pids orSignal =>
    (pids.all fun pid => (s.system.ended.lookup pid).isSome) ||
      (orSignal && s.system.caught.any (·.1 == t.pid))
  | .endedBy pid time => (s.system.ended.lookup pid).isSome || time ≤ s.system.clock
  | .lines count n => s.isClosed t.pid n || count ≤ (s.system.unread n).text.count '\n'
  | .closed n => s.isClosed t.pid n
  | .unheard n => !(s.heldBeside t.pid).contains ⟨n, false⟩
  | .never => false

/-- Processes have numbers less than this. -/
def maxPid : Nat := System.leader + 20000

/-- Follows a turn up to the wait or the end of its process. Where there are no more numbers for
processes, one that makes another waits for ever. -/
def settle (pid : Nat) : Turn (Unit × Machine) → Schedule → Schedule
  | .done (_, m), s => (s.setSystem m.system).finish pid (Task.endingOf m)
  | .wait m need next, s =>
    let s := s.setSystem m.system
    { s with tasks := s.tasks ++ [⟨pid, m, need, next⟩] }
  | .fork m child c next, s =>
    let made := s.nextPid
    if maxPid ≤ made then
      { s.setSystem m.system with tasks := s.tasks ++ [⟨pid, m, .never, fun _ => .done ((), m)⟩] }
    else
      let held := m.system.held ++ child.handles
      let living := (made, child.group) :: m.system.living
      settle pid (next made { m.system with held, living })
        { s with nextPid := made + 1, tasks := s.tasks ++ [.start made child c] }

/-- Lets a signal reach a process. -/
def deliverTo (s : Schedule) (signal : Nat) (t : Task) : Schedule :=
  match if Signal.isFinal signal then none else t.machine.traps.lookup signal with
  | some action =>
    if action.isEmpty then s
    else s.setSystem { s.system with caught := (t.pid, signal) :: s.system.caught }
  | none =>
    if Signal.isIgnored signal then s
    else if Signal.isStop signal then
      { s with tasks := s.tasks.map fun u => if u.pid = t.pid then { u with need := .never } else u }
    else s.finish t.pid (.killed signal)

/-- The processes that a signal is for, but for the one that has sent it. -/
def targets (s : Schedule) (sender : Nat) : Target → List Task
  | .process pid => (s.find? pid).toList
  | .group leader => s.tasks.filter fun t => t.pid != sender && t.machine.group == leader

/-- Delivers the signals that a process has sent. -/
def deliver (s : Schedule) (sender : Nat) : Schedule :=
  s.system.sent.foldl (fun s (target, signal) =>
      (s.targets sender target).foldl (fun s t => s.deliverTo signal t) s)
    (s.setSystem { s.system with sent := [] })

/-- Lets a process take its turn. -/
def takeTurn (s : Schedule) (t : Task) : Schedule :=
  let others := s.remove t.pid
  let living := others.tasks.map fun t => (t.pid, t.machine.group)
  let system := { s.system with held := s.heldBeside t.pid, living }
  (settle t.pid (t.next system) others).deliver t.pid

/-- The next moment that a process waits for. -/
def nextMoment? (s : Schedule) : Option Nat :=
  (s.tasks.filterMap fun t => match t.need with
    | .moment time | .endedBy _ time => some time
    | _ => none).min?

/-- Lets the processes take turns until something is so, or until a moment. -/
def runUntil (isOver : Schedule → Bool) (limit : Option Nat) : (turns : Nat) → Schedule → Schedule
  | 0, s => s
  | turns + 1, s =>
    if isOver s then s
    else
      match s.tasks.find? s.isMet, s.nextMoment? with
      | some t, _ => runUntil isOver limit turns (s.takeTurn t)
      | none, some time =>
        if limit.any (· ≤ time) then s.setSystem { s.system with clock := limit.getD time }
        else runUntil isOver limit turns (s.setSystem { s.system with clock := time })
      | none, none => s.setSystem { s.system with clock := limit.getD s.system.clock }

/-- Processes do not take more turns than this. -/
def maxTurns : Nat := 1000000

def hasEnded (pid : Nat) (s : Schedule) : Bool :=
  (s.system.ended.lookup pid).isSome

/-- Whether no process can write to the streams any more. -/
def isSilent (streams : List Nat) (s : Schedule) : Bool :=
  s.tasks.all fun t => t.machine.handles.all fun h => !(h.isWriting && streams.contains h.stream)

/-- Kills the group of the first process. -/
def killGroup (s : Schedule) : Schedule :=
  (s.targets 0 (.group System.leader)).foldl (fun s t => s.finish t.pid (.killed Signal.kill)) s

end Schedule

end Doctest.Shell
