import Doctest.Shell.Builtin
import Doctest.Shell.Mode

/-! The commands of the shell about processes: signals, jobs, and what processes hand on. -/
namespace Doctest.Shell.Builtin

open Act

/-- A signal or, by the number zero, the end of the shell. -/
def trapNumber? (cs : Text) : Option Nat :=
  if cs.map Char.toUpper = "EXIT".toList then some 0 else Signal.ofText? cs

/-- Says what is to be done when a signal comes. Nothing to do is not the same as nothing said. -/
def trap : Builtin := fun args =>
  withOptions [] args fun _ operands => do
  setStatus 0
  match operands with
  | [] =>
    let shown := ((← get).traps.mergeSort fun a b => a.1 ≤ b.1).flatMap fun (n, action) =>
      textOf "trap -- " ++ quoted action ++ ' ' :: (if n = 0 then textOf "EXIT" else Signal.nameOf n) ++ ['\n']
    print (textOf "trap") (.ofText shown)
  | first :: rest =>
    let (action, names) : Option Text × List Text :=
      if rest.isEmpty ∨ (natOf? first).isSome then (none, operands)
      else (if first = ['-'] then none else some first, rest)
    let numbers := names.map trapNumber?
    for n in numbers.takeWhile (·.isSome) do
      if let some n := n then
        modify fun m => { m with
          traps := (action.map fun a => (n, a)).toList ++ m.traps.filter (·.1 != n) }
    if let some bad := names[(numbers.takeWhile (·.isSome)).length]? then
      say (textOf "trap: " ++ bad ++ textOf ": bad trap")
      setStatus 1

def killUsage : String :=
  "Usage: kill [-s sigspec | -signum | -sigspec] [pid | job]... or\nkill -l [exitstatus]"

/-- Sends a signal to this process, which may have prepared for it. -/
def receive (signal : Nat) : Act Unit := do
  let m ← get
  match if Signal.isFinal signal then none else m.traps.lookup signal with
  | some action =>
    if !action.isEmpty then
      let caught := (m.pid, signal) :: m.system.caught
      set { m with system := { m.system with caught } }
  | none =>
    if Signal.isIgnored signal then pure ()
    else if Signal.isStop signal then await .never
    else setFlow (.killed signal)

/-- The job that a name stands for: the newest one, the one before it, or one by its number. -/
def jobNamed (m : Machine) (name : Text) : Except Text Job :=
  let orElse (job : Option Job) (words : Text) : Except Text Job :=
    match job with
    | some j => .ok j
    | none => .error words
  let noSuch : Text := textOf "No such job: " ++ name
  match name with
  | ['%'] | ['%', '%'] | ['%', '+'] => orElse m.jobs.head? (textOf "No current job")
  | ['%', '-'] => orElse m.jobs[1]? (textOf "No previous job")
  | '%' :: ds => orElse ((natOf? ds).bind fun n => m.jobs.find? (·.number = n)) noSuch
  | _ => .error noSuch

def send (target : Target) (signal : Nat) : Act Unit :=
  modify fun m => { m with system := { m.system with sent := m.system.sent ++ [(target, signal)] } }

/-- Sends a signal to a process, to the process's own group if the number is zero, or to the group of the
leader whose number stands behind a sign. Jobs have no groups of their own. Gives the status. -/
def killOne (signal : Nat) (target : Text) : Act Nat := do
  let m ← get
  let unknown : Act Nat := do
    complain (textOf "No such process\n")
    pure 1
  let toGroup (leader : Nat) : Act Nat := do
    if leader = m.group then
      send (.group leader) signal
      receive signal
      pure 0
    else if m.system.living.any (·.2 = leader) then
      send (.group leader) signal
      pure 0
    else unknown
  let toProcess (pid : Nat) : Act Nat := do
    if pid = m.pid then
      receive signal
      pure 0
    else if m.system.isLiving pid then
      send (.process pid) signal
      pure 0
    else if m.jobs.any fun j => j.pid = pid && !j.isNoticed then pure 0
    else unknown
  match target with
  | '%' :: _ =>
    match jobNamed m target with
    | .ok _ => unknown
    | .error w =>
      complain w
      pure 2
  | '-' :: ds =>
    match natOf? ds with
    | some leader => toGroup leader
    | none => illegal
  | ds =>
    match natOf? ds with
    | some 0 => toGroup m.group
    | some pid => toProcess pid
    | none => illegal
where
  illegal : Act Nat := do
    complain (textOf "Illegal number: " ++ target)
    pure 2

/-- Names signals by their numbers or by the statuses of processes that they have killed. -/
def listSignals : Builtin
  | [] => do
    setStatus 0
    let names := (List.range Signal.limit).map Signal.nameOf
    print (textOf "kill") (.ofText (unlinesOf names))
  | arg :: _ => do
    setStatus 0
    match natOf? arg with
    | none => fail (textOf "Illegal number: " ++ arg)
    | some n =>
      let signal := if 128 < n then n - 128 else n
      if signal = 0 ∨ Signal.limit ≤ signal then
        fail (textOf "invalid signal number or exit status: " ++ arg)
      else print (textOf "kill") (.ofText (Signal.nameOf signal ++ ['\n']))

def kill : Builtin := fun args => do
  let sendTo (signal : Nat) (targets : List Text) : Act Unit := do
    if targets.isEmpty then fail (textOf killUsage)
    else
      setStatus 0
      for target in targets do
        if ← goesOn then
          let status ← killOne signal target
          if status ≠ 0 then setStatus status
  match args with
  | ['-', 's'] :: name :: rest =>
    match Signal.ofText? name with
    | some signal => sendTo signal rest
    | none => fail (textOf "invalid signal number or name: " ++ name)
  | ['-', 'l'] :: rest => listSignals rest
  | ['-', '-'] :: rest => sendTo Signal.terminate rest
  | ('-' :: name) :: rest =>
    match Signal.ofText? name with
    | some signal => sendTo signal rest
    | none => fail (textOf "Illegal option -" ++ name.take 1)
  | args => sendTo Signal.terminate args

/-- Waits for one process that was made for a job, and takes its status. -/
def waitFor (pid : Nat) : Act Unit := do
  await (.ended [pid] true)
  let m ← get
  match m.system.caught.find? (·.1 = m.pid), m.system.ended.lookup pid with
  | _, some ending =>
    if !m.jobs.any fun j => j.pid = pid && j.isNoticed then
      let _ ← awaitAll [pid]
    modify (·.markAwaited [pid])
    setStatus ending.status
  | some (_, signal), none => setStatus (128 + signal)
  | none, none => setStatus 0

def waitForAll : Act Unit := do
  await (.ended ((← get).jobs.map (·.pid)) true)
  modify (·.notice)
  let m ← get
  let finished := (m.jobs.filter (·.isNoticed)).map (·.pid)
  set (m.markAwaited finished)
  match m.system.caught.find? (·.1 = m.pid) with
  | some (_, signal) => setStatus (if finished.length = m.jobs.length then 0 else 128 + signal)
  | none => setStatus 0

def wait : Builtin := fun args =>
  withOptions [] args fun _ operands => do
  if operands.isEmpty then waitForAll
  else
    for target in operands do
      if ← goesOn then
        match target.head?, jobNamed (← get) target, natOf? target with
        | some '%', .ok job, _ => waitFor job.pid
        | some '%', .error w, _ => fail w
        | _, _, some pid => if (← get).hasJob pid then waitFor pid else setStatus 127
        | _, _, none => fail (textOf "Illegal number: " ++ target)

/-- How a process is, as it is shown of its job. -/
def condition (m : Machine) (pid : Nat) : Text :=
  match m.system.ended.lookup pid with
  | none => textOf "Running"
  | some (.exited 0) => textOf "Done"
  | some (.exited n) => textOf "Done(" ++ digits n ++ [')']
  | some (.killed signal) => textOf (Signal.description signal)

/-- Shows jobs, of which the first two have marks, and forgets those that have ended. -/
def showJobs (isLong isShort : Bool) : (marks : List Char) → List Job → Act Unit
  | _, [] => pure ()
  | marks, j :: js => do
    let m ← get
    let pid := digits j.pid
    let start := '[' :: digits j.number ++ [']', ' ', marks.headD ' ', ' '] ++
      (if isLong then pid ++ [' '] else []) ++ condition m j.pid
    let line := if isShort then pid else start ++ List.replicate (33 - start.length) ' '
    print (textOf "jobs") (.ofText (line ++ ['\n']))
    if (m.system.ended.lookup j.pid).isNone then showJobs isLong isShort marks.tail js
    else
      modify fun m => { m with jobs := m.jobs.filter (·.number != j.number) }
      showJobs isLong isShort marks js

def jobMarks : List Char :=
  ['+', '-']

/-- Shows all jobs, or those that are named. -/
def jobs : Builtin := fun args =>
  withOptions ['l', 'p'] args fun os operands => do
  setStatus 0
  modify (·.notice)
  let display := showJobs (os.contains 'l') (os.contains 'p')
  if operands.isEmpty then display jobMarks (← get).jobs
  else
    for name in operands do
      if ← goesOn then
        let m ← get
        match jobNamed m name with
        | .error w => fail w
        | .ok j => display (jobMarks.drop (m.jobs.takeWhile (· != j)).length) [j]

/-- Refuses to bring a job to the front or to let it go on, since none can be held up. -/
def resume : Builtin := fun args => do
  let name := args.headD (textOf "%%")
  match jobNamed (← get) name with
  | .error w => fail w
  | .ok _ =>
    let shown := if args.isEmpty then textOf "(null)" else name
    fail (textOf "job " ++ shown ++ textOf " not created under job control")

/-- Looks for programs, and says which there are not. -/
def hash : Builtin := fun args =>
  withOptions ['r', 'v'] args fun _ names => do
  setStatus 0
  for name in names do
    if !((← get).candidates name).any (← get).isProgram then
      complain (name ++ textOf ": not found")
      setStatus 1

/-- Shows the times that processes have used, which are none. -/
def times : Builtin := fun _ => do
  setStatus 0
  let line := textOf "0m0.000000s 0m0.000000s"
  print (textOf "times") (.ofText (unlinesOf [line, line]))

/-- Shows or changes what rights new files are made without. -/
def umask : Builtin := fun args =>
  withOptions ['S'] args fun os operands => do
  let m ← get
  let granted := Mode.ofNat (511 - m.mask)
  setStatus 0
  match operands with
  | [] =>
    let number := (Nat.toDigits 8 m.mask)
    let cs := if os.contains 'S' then granted.shown else List.replicate (4 - number.length) '0' ++ number
    print (textOf "umask") (.ofText (cs ++ ['\n']))
  | mode :: _ =>
    if (mode.head?.map Char.isDigit).getD false then
      match Mode.octal? mode with
      | some n => set { m with mask := n % 512 }
      | none => fail (textOf "Illegal number: " ++ mode)
    else
      match granted.change mode with
      | some granted => set { m with mask := 511 - granted.toNat }
      | none => fail (textOf "Illegal mode: " ++ mode)

end Doctest.Shell.Builtin
