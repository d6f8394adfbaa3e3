import Doctest.Shell.Machine

/-! Processes take turns. A turn goes on until the process ends or has to wait; what it does after the
wait depends on what the others have done meanwhile. -/
namespace Doctest.Shell

/-- What a process waits for. -/
inductive Need
  | moment (time : Nat)
  /-- All of some processes have ended or, on demand, a signal has been caught. -/
  | ended (pids : List Nat) (orSignal : Bool)
  /-- A process has ended, or there is no more time for it. -/
  | endedBy (pid time : Nat)
  /-- There are so many lines to be read, or nothing more will be written. -/
  | lines (count stream : Nat)
  /-- Nothing more will be written. -/
  | closed (stream : Nat)
  /-- Nobody reads any more. -/
  | unheard (stream : Nat)
  | never
deriving DecidableEq, Repr

/-- A turn that gives a value in the end. A process that waits shows its state. A process that makes
another one, which begins with a command in a state of its own, learns its number and goes on. -/
inductive Turn (α : Type)
  | done (a : α)
  | wait (m : Machine) (need : Need) (next : System → Turn α)
  | fork (m child : Machine) (c : Command) (next : Nat → System → Turn α)

namespace Turn

variable {α β : Type}

def bind : Turn α → (α → Turn β) → Turn β
  | done a, f => f a
  | wait m need next, f => wait m need fun s => (next s).bind f
  | fork m child c next, f => fork m child c fun pid s => (next pid s).bind f

instance : Monad Turn where
  pure := done
  bind := bind

theorem bind_done (t : Turn α) : t.bind done = t := by
  induction t with
  | done => rfl
  | wait m need next ih => exact congrArg (wait m need) (funext ih)
  | fork m child c next ih =>
    exact congrArg (fork m child c) (funext fun pid => funext (ih pid))

theorem bind_assoc {γ : Type} (t : Turn α) (f : α → Turn β) (g : β → Turn γ) :
    (t.bind f).bind g = t.bind fun a => (f a).bind g := by
  induction t with
  | done => rfl
  | wait m need next ih => exact congrArg (wait m need) (funext ih)
  | fork m child c next ih =>
    exact congrArg (fork m child c) (funext fun pid => funext (ih pid))

end Turn

/-- Something that a process does, in one turn or in several. -/
abbrev Act := StateT Machine Turn

/-- How commands are run. With the last one the process ends. -/
abbrev Runner := (isLast : Bool) → Command → Act Unit

namespace Act

def await (need : Need) : Act Unit := fun m =>
  .wait m need fun system => .done ((), { m with system })

/-- Makes a process that runs a command in a changed state. -/
def fork (change : Machine → Machine) (c : Command) : Act Nat := fun m =>
  .fork m { change m with parent := m.pid } c fun pid system => .done (pid, { m with system })

def goesOn : Act Bool := do
  pure ((← get).flow == .next)

def setStatus (status : Nat) : Act Unit :=
  modify fun m => { m with status }

def setFlow (flow : Flow) : Act Unit :=
  modify fun m => { m with flow }

/-- Ends the process with a status. -/
def exit (status : Nat) : Act Unit :=
  modify fun m => { m with status, flow := .exit }

/-- Lets a value of the state be something for a while. -/
def within {α β : Type} (look : Machine → α) (put : α → Machine → Machine) (value : α)
    (act : Act β) : Act β := do
  let before := look (← get)
  modify (put value)
  let b ← act
  modify (put before)
  pure b

/-- Runs something whose success or failure is asked for. -/
def tested (act : Act Unit) : Act Unit :=
  within (·.isTested) (fun isTested m => { m with isTested }) true act

/-- Writes to a descriptor and says why that was not possible. A process that writes to a pipe which
nobody reads is killed. -/
def emit (fd : Nat) (out : Source) : Act (Option FileError) := do
  let m ← get
  if out = .empty then pure none
  else
    match m.handle? fd with
    | some ⟨n, true⟩ =>
      match m.system.stream n, m.system.refusal? n with
      | _, some e => pure (some e)
      | .pipe .., none =>
        if m.system.isRead n then
          modify fun m => { m with system := m.system.write n out }
          if out.isEndless then
            await (.unheard n)
            setFlow (.killed Signal.brokenPipe)
        else setFlow (.killed Signal.brokenPipe)
        pure none
      | .file .., none =>
        modify fun m => { m with system := m.system.write n out }
        if out.isEndless then await .never
        pure none
    | _ => pure (some .badDescriptor)

/-- Writes a line to the errors. -/
def say (words : Text) : Act Unit := do
  let _ ← emit 2 (.ofText (words ++ ['\n']))

/-- Says what is wrong, with the name of the script, a line, and the command of the shell that runs. -/
def complainAt (line : Nat) (words : Text) : Act Unit := do
  let m ← get
  let command : Text := (m.builtin.map (· ++ [':', ' '])).getD []
  say (m.name ++ [':', ' '] ++ digits line ++ [':', ' '] ++ command ++ words)

def complain (words : Text) : Act Unit := do
  complainAt (← get).line words

/-- Says what is wrong and gives up. -/
def fail (words : Text) : Act Unit := do
  complain words
  modify fun m => { m with status := 2, flow := .failed }

/-- Goes on after an error. -/
def forgive : Act Unit :=
  modify fun m => { m with flow := if m.flow = .failed then .next else m.flow }

/-- Waits for processes and gives how the last of them ended. Deaths are told, and only the ends of jobs
are remembered. -/
def awaitAll (pids : List Nat) : Act Ending := do
  await (.ended pids false)
  modify (·.notice)
  let m ← get
  let endings := pids.filterMap (m.system.ended.lookup ·)
  let ended := m.system.ended.filter fun e => !pids.contains e.1 || m.hasJob e.1
  set { m with system := { m.system with ended } }
  for e in endings do
    if let .killed signal := e then
      if let some words := Signal.lament? signal then say (textOf words)
  pure (endings.getLastD (.exited 0))

/-- Runs a command in a process of its own and waits for it. -/
def apart (change : Machine → Machine) (c : Command) : Act Unit := do
  modify (·.makeRoom)
  let pid ← fork (fun m => change m.part) c
  setStatus (← awaitAll [pid]).status

/-- Opens a stream of the process's own. -/
def addStream (stream : Stream) : Act Nat := do
  let m ← get
  let (n, system) := m.system.addStream m.handles stream
  set { m with system }
  pure n

/-- Runs a command in a process of its own and gives what it writes to its output. -/
def capture (c : Command) : Act Text := do
  let n ← addStream (.pipe .empty [])
  modify fun m => { m.makeRoom with kept := ⟨n, false⟩ :: m.kept }
  let pid ← fork (fun m =>
    { m.part.setHandle 1 (some ⟨n, true⟩) with isTested := false }) c
  await (.closed n)
  let ending ← awaitAll [pid]
  modify fun m => { m with kept := m.kept.erase ⟨n, false⟩, taken := some ending.status }
  pure ((← get).system.unread n).text

/-- What the process reads, as soon as there is what it needs. -/
def input (need : Nat → Need) : Act Source := do
  match (← get).handle? 0 with
  | some ⟨n, false⟩ =>
    await (need n)
    pure ((← get).system.unread n)
  | _ => pure .empty

def leaveInput (rest : Source) : Act Unit :=
  modify fun m =>
    match m.handle? 0 with
    | some ⟨n, false⟩ => { m with system := m.system.leave n rest }
    | _ => m

end Act

end Doctest.Shell
