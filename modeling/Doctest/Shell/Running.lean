import Doctest.Shell.Builtin.Processes
import Doctest.Shell.Builtin.Settings
import Doctest.Shell.Builtin.Variables
import Doctest.Shell.External
import Doctest.Shell.Redirection

/-! What commands do. -/
namespace Doctest.Shell

/-- Functions and commands nest less deep than this. -/
def maxDepth : Nat := 1000

/-- A loop with more rounds has no end in sight. -/
def maxRounds : Nat := 100000

namespace Act

/-- Ends a script that is strict about a failure. -/
def checked : Act Unit := do
  let m ← get
  if m.has 'e' && !m.isTested && m.flow == .next && m.status != 0 then setFlow .exit

/-- Shows what has been read of a file, if that is asked for. -/
def echo (cs : Text) : Act Unit := do
  if (← get).has 'v' then
    let _ ← emit 2 (.ofText cs)

/-- Runs the command lines of a text, which has so many, one after another. -/
def runLines (run : Runner) (isLast isFile : Bool) (lines : Nat) (cs : Text) : Act Unit := do
  if ← goesOn then
    match commandLine lines cs with
    | .error (f, line) =>
      let first := lines - cs.count '\n'
      if isFile then echo (unlinesOf ((linesOf cs).take (line + 1 - first)))
      complainAt line (textOf "Syntax error: " ++ textOf f.message)
      exit 2
    | .ok (c, rest) =>
      if isFile then echo (cs.take (cs.length - rest.length))
      modify fun m => { m with nextLine := lines - rest.count '\n' }
      if _h : rest.length < cs.length then
        match c with
        | .sequence [] => pure ()
        | c => run (isLast && rest.all Doctest.Text.isBlank) c
        runLines run isLast isFile lines rest
termination_by cs.length

/-- Runs a text whose first line has the number one. -/
def runText (run : Runner) (isLast isFile : Bool) (cs : Text) : Act Unit := do
  let before := (← get).nextLine
  runLines run isLast isFile (cs.count '\n' + 1) cs
  modify fun m => { m with nextLine := before }

/-- Runs what is to be done in between, after which the status is as before. -/
def runAction (run : Runner) (action : Text) : Act Unit := do
  let before ← get
  set { before with leaving := some before.status }
  runText run false false action
  modify fun m =>
    { m with leaving := before.leaving, status := if m.flow = .next then before.status else m.status }

/-- Does what is to be done for the signals that have been caught. -/
def takeSignals (run : Runner) : Act Unit := do
  let m ← get
  let own := m.system.caught.filter (·.1 = m.pid)
  if !own.isEmpty && m.flow == .next then
    let caught := m.system.caught.filter (·.1 != m.pid)
    set { m with system := { m.system with caught } }
    for (_, signal) in own.reverse do
      if let some action := (← get).traps.lookup signal then
        if ← goesOn then runAction run action

/-- Runs a process to its end, and what is to be done there unless it has been killed. -/
def runProcess (run : Runner) (act : Act Unit) : Act Unit := do
  act
  let m ← get
  match m.flow, m.traps.lookup 0 with
  | .killed _, _ | _, none => pure ()
  | _, some action =>
    set { m with flow := .next, traps := m.traps.filter (·.1 != 0) }
    runAction run action

/-- Runs a text as a script of its own. -/
def runScript (run : Runner) (isLast isFile : Bool) (name contents : Text) (args : List Text) : Act Unit := do
  modify fun m => { m with name, arguments := args }
  runProcess run (runText run isLast isFile contents)

/-- The text that can be read at a path. A pipe is read to its end. -/
def contentsOf (path : Text) : Act (Except FileError Text) := do
  if let .pipe n _ := (← get).place path then
    await (.closed n)
    let cs := ((← get).system.unread n).text
    modify fun m => { m with system := m.system.leave n .empty }
    pure (.ok cs)
  else pure (((← get).sourceAt path).map (·.text))

/-- What a shell adds to the variables that it is given, and what it puts in the place of some. -/
def startVariables (m : Machine) : Machine :=
  let usual : List (String × String) := [("PS1", "# "), ("PS2", "> "), ("PS4", "+ "),
    ("PATH", "/usr/local/sbin:/usr/local/bin:/usr/sbin:/usr/bin:/sbin:/bin")]
  let fixed : List (String × Text) := [("IFS", Machine.blanks), ("OPTIND", ['1']), ("PPID", digits m.parent)]
  let m := usual.foldl (fun m (name, value) =>
    if (m.valueOf? name.toList).isSome then m else m.setVariable name.toList (textOf value)) m
  let m := fixed.foldl (fun m (name, value) => m.setVariable name.toList value) m
  m.putVariable "PWD".toList (some ⟨some m.homeText, true, false⟩)

/-- Runs a shell with arguments: a text, a file, or its input. -/
def runShell (run : Runner) (p : Program) : Act Unit := do
  let refuse (w : Text) : Act Unit := do
    sayOf p (textOf "0: " ++ w)
    exit 2
  modify startVariables
  match Builtin.settled true (← get) p.args with
  | .error w => refuse w
  | .ok s =>
    set s.machine
    if s.machine.has 'm' then
      modify fun m => { m with name := p.name }
      Builtin.withoutControl
    match s.isCommand, s.operands.getD [] with
    | true, [] => refuse (textOf "-c requires an argument")
    | true, command :: rest => runScript run true false (rest.headD p.name) command rest.tail
    | false, file :: rest =>
      if s.machine.has 's' then runInput (file :: rest)
      else
        match ← contentsOf file with
        | .ok cs =>
          keepScript file
          runScript run false true file cs rest
        | .error .isDirectory => pure ()
        | .error e => refuse (Access.read.refusal file e)
    | false, [] => runInput []
where
  keepScript (file : Text) : Act Unit := do
    let m ← get
    if let .path p := m.place file then
      if let .ok names := m.files.resolve (pathOf p) then
        let _ ← openAs Machine.firstOwn (.file names 0 false) false
  runInput (args : List Text) : Act Unit := do
    let s ← input .closed
    leaveInput .empty
    runScript run false true p.name s.text args

/-- Runs a program of the system to the end of the process. -/
def runProgram (run : Runner) (p : Program) : Act Unit := do
  modify (·.program)
  let words := p.name :: p.args
  if Program.isShell p.utility then
    modify fun m => { m with call := words }
    runShell run p
  else
    modify fun m => { m with tool := some (p.utility, words) }
    match String.ofList p.utility with
    | "sleep" => sleep p
    | "env" => runEnv run p
    | "nohup" => changeTo run (commandFailure FileWork.inMarks) p p.args
    | "nice" => runNice run p
    | "stdbuf" => runBuffered run p
    | "timeout" => runTimed p
    | "xargs" => runForWords p
    | "setsid" =>
      modify fun m => { m with group := m.pid }
      changeTo run (textOf "failed to execute " ++ ·) p p.args
    | _ =>
      match Utility.find? p.utility with
      | some f => runUtility p f
      | none => setStatus 127
  if ← goesOn then setFlow .exit

/-- Becomes the program that a name leads to. -/
def become (run : Runner) (args : List Text) : Act Unit := do
  let name := args.headD []
  let m ← get
  match Program.findOrRead m name args.tail with
  | .ok p => runProgram run p
  | .error e =>
    let isMissing := (e = .notFound ∨ e = .notDirectory) ∧ name ≠ []
    complain (name ++ textOf (": " ++ if isMissing then "not found"
      else if name = [] then FileError.permissionDenied.words else e.words))
    let isFound := name.contains '/' ∨ m.builtin.isSome
    exit (if isMissing ∨ e = .loop ∨ e = .nameTooLong ∨ !isFound then 127 else 126)

/-- Gives variables new values one after another, and says which. -/
def assignAll : List (Text × Word) → Act (List (Text × Text))
  | [] => pure []
  | (name, word) :: rest => do
    let value ← Word.value word
    if ← goesOn then assign name value
    if ← goesOn then
      let more ← assignAll rest
      pure ((name, value) :: more)
    else pure []

/-- Writes a command to where the errors went before its redirections, if that is asked for. -/
def trace (errors : Option Handle) (assigned : List (Text × Text)) (args : List Text) : Act Unit := do
  let shown := assigned.map (fun (name, value) => name ++ '=' :: value) ++ args
  if (← get).has 'x' then
    within (·.handle? 2) (fun h m => m.setHandle 2 h) errors
      (say (textOf "+ " ++ Doctest.Text.joinWith ' ' shown))

/-- Runs a function with its own arguments. -/
def runFunction (run : Runner) (body : Command) (args : List Text) : Act Unit := do
  let m ← get
  set { m with arguments := args, optionPlace := .start, locals := [] :: m.locals, loops := 0 }
  run false body
  modify fun after =>
    let restored := (after.locals.headD []).foldl (fun m (name, v) => m.putVariable name v) after
    { restored with
      arguments := m.arguments
      optionPlace := m.optionPlace
      locals := m.locals
      loops := m.loops
      flow := if after.flow = .giveBack then .next else after.flow }

/-- Runs a text as a part of the script. -/
def runEval (run : Runner) (args : List Text) : Act Unit := do
  let cs := Doctest.Text.joinWith ' ' args
  setStatus 0
  runText run false false cs

/-- The path of a file that is run as a part of the script. A name is looked for like one of a program. -/
def sourcePath? (m : Machine) (file : Text) : Option Text :=
  if file.contains '/' then some file
  else (m.candidates file).find? fun path => m.isPipe path || Condition.isFile m path

/-- Runs a file as a part of the script. -/
def runSource (run : Runner) (args : List Text) : Act Unit := do
  let file := args.headD []
  match sourcePath? (← get) file with
  | none => fail (file ++ textOf ": not found")
  | some path =>
    match ← contentsOf path with
    | .ok cs =>
      setStatus 0
      within (·.builtin) (fun builtin m => { m with builtin }) (some file) (runText run false true cs)
      modify fun m => { m with flow := if m.flow = .giveBack then .next else m.flow }
    | .error e => fail (Access.read.refusal path e)

/-- The commands whose assignments last and whose failures end the shell. -/
def special (run : Runner) : List (String × Builtin) :=
  [("exit", Builtin.exit), ("return", Builtin.giveBack), ("break", Builtin.leave false),
    ("continue", Builtin.leave true), ("shift", Builtin.shift), ("set", Builtin.change),
    ("unset", Builtin.unset), ("trap", Builtin.trap), ("times", Builtin.times),
    (":", Builtin.nothing), ("eval", runEval run), (".", runSource run),
    ("export", Builtin.mark "export" (·.isExported) fun v => { v with isExported := true }),
    ("readonly", Builtin.mark "readonly" (·.isReadOnly) fun v => { v with isReadOnly := true }),
    ("local", Builtin.declare)]

def utilities : List String :=
  ["echo", "printf", "true", "false"]

/-- The commands that are like programs. -/
def ordinary : List (String × Builtin) :=
  utilities.map (fun name => (name, Builtin.utility name.toList)) ++
    [("pwd", Builtin.pwd), ("cd", Builtin.changeDirectory), ("read", Builtin.read), ("test", Builtin.test),
      ("[", Builtin.bracket), ("kill", Builtin.kill), ("wait", Builtin.wait),
      ("umask", Builtin.umask), ("ulimit", Builtin.nothing), ("hash", Builtin.hash),
      ("getopts", Builtin.getopts), ("jobs", Builtin.jobs), ("fg", Builtin.resume), ("bg", Builtin.resume),
      ("alias", Builtin.nothing), ("unalias", Builtin.nothing)]

def ordinaryNames : List String :=
  ordinary.map (·.1) ++ ["command", "type"]

/-- A command of the shell that describes commands, or else one of the ordinary ones. -/
def ordinary? (name : Text) : Option Builtin :=
  if name = textOf "type" then some (Builtin.describe ordinaryNames false)
  else (ordinary.find? fun b => b.1.toList == name).map (·.2)

def special? (run : Runner) (name : Text) : Option Builtin :=
  ((special run).find? fun b => b.1.toList == name).map (·.2)

/-- What a simple command is: only assignments, or else, in this order, a special command, a function,
another command of the shell, a program. -/
inductive Meaning
  | assignment
  | special (name : Text) (b : Builtin) (args : List Text)
  | function (body : Command) (args : List Text)
  | ordinary (name : Text) (b : Builtin) (args : List Text)
  | replacement (isStrict : Bool) (args : List Text)
  | program (args : List Text)

/-- What does not change the meaning of the words after `command`. -/
def transparent : List Text :=
  [textOf "command", textOf "-p", textOf "--"]

/-- What the words of a command mean. After `command` there are no functions and no special commands. -/
def meaning (run : Runner) (m : Machine) : List Text → Meaning
  | [] => .assignment
  | name :: args =>
    if name = textOf "command" then
      match args.dropWhile (transparent.contains ·) with
      | [] => .ordinary name (Builtin.command ordinaryNames) []
      | ('-' :: option) :: args => .ordinary name (Builtin.command ordinaryNames) (('-' :: option) :: args)
      | name :: args =>
        match special? run name, ordinary? name with
        | some b, _ | none, some b => .ordinary name b args
        | none, none => if name = textOf "exec" then .replacement false args else .program (name :: args)
    else
      match special? run name, m.functions.lookup name, ordinary? name with
      | some b, _, _ => .special name b args
      | none, some body, _ => .function body args
      | none, none, some b => .ordinary name b args
      | none, none, none =>
        if name = textOf "exec" then .replacement true args else .program (name :: args)

/-- Runs a command of the shell under its name. -/
def runBuiltin (name : Text) (b : Builtin) (args : List Text) : Act Unit :=
  within (·.builtin) (fun builtin m => { m with builtin }) (some name) (b args)

/-- Puts a program in the place of the shell, or makes redirections last. -/
def replaceBy (run : Runner) (isStrict : Bool) (args : List Text) (rs : List Redirect)
    (prepare : Act (List (Text × Text))) : Act Unit := do
  let ts ← openings rs
  if ← goesOn then
    if ← redirectAll ts then
      let _ ← prepare
      if ← goesOn then
        if args.isEmpty then setStatus 0
        else
          within (·.builtin) (fun builtin m => { m with builtin }) (some (textOf "exec")) (become run args)
    else if ← goesOn then
      if isStrict then exit 2 else setStatus 2

/-- Runs a program in a process of its own, or in this one if it ends with it. -/
def runExternal (run : Runner) (isLast : Bool) (args : List Text) : Act Unit := do
  if isLast && !(← get).hasTraps then become run args
  else apart id (.program args)

/-- Runs something while variables have values that are given to them first. -/
def withVariables (prepare : Act (List (Text × Text))) (act : Act Unit) : Act Unit := do
  let before ← get
  let assigned ← prepare
  if ← goesOn then
    modify fun m => assigned.foldl (fun m (name, value) =>
      m.putVariable name (some ⟨some value, true, false⟩)) m
    act
    modify fun m => assigned.foldl (fun m (name, _) =>
      m.putVariable name (before.values.lookup name)) m

/-- Runs a simple command by what it means. Its variables are given their values by `prepare`. -/
def runMeaning (run : Runner) (isLast : Bool) (rs : List Redirect) (prepare : Act (List (Text × Text))) :
    Meaning → Act Unit
  | .assignment => do
    let _ ← withRedirects rs do
      let _ ← prepare
      if ← goesOn then modify fun m => { m with status := m.taken.getD 0 }
  | .special name b args => do
    let isMade ← withRedirects rs do
      let _ ← prepare
      if ← goesOn then runBuiltin name b args
    if !isMade && (← goesOn) then exit 2
  | .function body args => temporarily (runFunction run body args)
  | .ordinary name b args => temporarily do
    runBuiltin name b args
    forgive
  | .replacement isStrict args => replaceBy run isStrict args rs prepare
  | .program args => temporarily (runExternal run isLast args)
where
  temporarily (act : Act Unit) : Act Unit := do
    let _ ← withRedirects rs (withVariables prepare act)

/-- Commands whose arguments can be assignments. -/
def declaring : List Text :=
  [textOf "export", textOf "readonly", textOf "local", textOf "alias"]

/-- The arguments of a command, of which some have been worked out. An assignment is not split. -/
def argumentsOf : (args : List Text) → List Word → Act (List Text)
  | args, [] => pure args
  | args, w :: ws => do
    let isDeclaring := ((args.dropWhile (transparent.contains ·)).head?.map (declaring.contains ·)).getD false
    let more ← match if isDeclaring then assignment? w else none with
      | some (name, value) => do pure [name ++ '=' :: (← Word.value value)]
      | none => Word.fields w
    if ← goesOn then argumentsOf (args ++ more) ws else pure (args ++ more)

/-- Runs a simple command. Its words are worked out first, then its redirections, then the values of
its variables. -/
def runSimple (run : Runner) (isLast : Bool) (line : Nat) (assignments : List (Text × Word))
    (ws : List Word) (rs : List Redirect) : Act Unit := do
  modify fun m => { m with line, taken := none }
  let args ← argumentsOf [] ws
  if ← goesOn then
    let m ← get
    let prepare : Act (List (Text × Text)) := do
      let assigned ← assignAll assignments
      if ← goesOn then trace (m.handle? 2) assigned args
      pure assigned
    runMeaning run isLast rs prepare (meaning run m args)
  checked
  takeSignals run

/-- Makes a process for each stage of a pipe, which reads what the one before writes. -/
def forkStages : (source : Option Handle) → List Command → Act (List Nat)
  | _, [] => pure []
  | source, c :: rest => do
    let redirected (m : Machine) : Machine := match source with
      | some h => m.part.setHandle 0 (some h)
      | none => m.part
    match rest with
    | [] => pure [← fork redirected c]
    | rest =>
      let n ← addStream (.pipe .empty [])
      let pid ← fork (fun m => (redirected m).setHandle 1 (some ⟨n, true⟩)) c
      let pids ← forkStages (some ⟨n, false⟩) rest
      pure (pid :: pids)

def runPipe (run : Runner) (negated : Bool) (stages : List Command) : Act Unit := do
  let all : Act Unit := match stages with
    | [c] => run false c
    | _ => do
      modify (·.makeRoom)
      let pids ← forkStages none stages
      setStatus (← awaitAll pids).status
  if negated then
    tested all
    if ← goesOn then modify fun m => { m with status := if m.status = 0 then 1 else 0 }
  else
    all
    checked
  takeSignals run

/-- Runs a command in a process that nobody waits for. It reads nothing. -/
def runBehind (c : Command) : Act Unit := do
  let n ← addStream (.file FileTree.nullDevice 0 false)
  let pid ← fork (fun m =>
    let m := m.part.setHandle 0 (some ⟨n, false⟩)
    { m with isTested := false, traps := (2, []) :: (3, []) :: m.traps }) c
  modify fun m => { m.addJob pid with status := 0 }

/-- The flow after a round of a loop, and whether there may be another one. -/
def afterRound : Flow → Flow × Bool
  | .next => (.next, true)
  | .leave levels again => if levels ≤ 1 then (.next, again) else (.leave (levels - 1) again, false)
  | flow => (flow, false)

/-- Ends a round of a loop, and says whether there may be another one. -/
def endRound : Act Bool := do
  let (flow, isOpen) := afterRound (← get).flow
  setFlow flow
  pure isOpen

/-- Runs the rounds of a loop, of which the last ended with the status. -/
def runRounds (run : Runner) (negated : Bool) (condition body : Command) :
    (rounds : Nat) → (last : Nat) → Act Unit
  | 0, _ => await .never
  | rounds + 1, last => do
    tested (run false condition)
    let m ← get
    if m.flow ≠ .next then
      if ← endRound then runRounds run negated condition body rounds last
    else if (m.status == 0) == negated then setStatus last
    else
      run false body
      if ← endRound then runRounds run negated condition body rounds (← get).status

def runEach (run : Runner) (name : Text) (body : Command) : List Text → Act Unit
  | [] => pure ()
  | value :: rest => do
    assign name value
    if ← goesOn then
      run false body
      if ← endRound then runEach run name body rest

/-- Runs a loop. -/
def inLoop (act : Act Unit) : Act Unit := do
  let loops := (← get).loops
  within (·.loops) (fun loops m => { m with loops }) (loops + 1) act

/-- Whether one of the patterns matches the whole subject. -/
def matchesAny (subject : Text) : List Word → Act Bool
  | [] => pure false
  | w :: ws => do
    let p ← Word.pattern w
    if p.accepts subject then pure true else matchesAny subject ws

def runArms (run : Runner) (isLast : Bool) (subject : Text) :
    List (List Word × Command) → Act Unit
  | [] => pure ()
  | (patterns, body) :: rest => do
    let isMatch ← matchesAny subject patterns
    if ← goesOn then
      if isMatch then run isLast body else runArms run isLast subject rest

def runAll (run : Runner) (isLast : Bool) : List Command → Act Unit
  | [] => pure ()
  | [c] => run isLast c
  | c :: rest => do
    run false c
    if ← goesOn then runAll run isLast rest

/-- A command with its redirections. -/
def withTarget (line : Nat) (c : Command) (rs : List Redirect) : Command :=
  if rs.isEmpty then c else .redirected line c rs

/-- Runs a command, in which others nest at most `depth` deep. -/
def run : (depth : Nat) → Runner
  | 0, _, _ => setFlow (.killed 11)
  | depth + 1, isLast, c => do
    let run := run depth
    if (← get).has 'n' then return
    match c with
    | .simple line assignments ws rs => runSimple run isLast line assignments ws rs
    | .pipe negated stages => runPipe run negated stages
    | .both first second =>
      tested (run false first)
      if (← goesOn) && (← get).status == 0 then run isLast second
    | .either first second =>
      tested (run false first)
      if (← goesOn) && (← get).status != 0 then run isLast second
    | .sequence cs => if cs.isEmpty then setStatus 0 else runAll run isLast cs
    | .background c => runBehind c
    | .branch condition yes no =>
      tested (run false condition)
      if ← goesOn then run isLast (if (← get).status = 0 then yes else no)
    | .loop negated condition body => inLoop (runRounds run negated condition body maxRounds 0)
    | .each line name ws body =>
      modify fun m => { m with line }
      let values ← match ws with
        | some ws => Word.allFields ws
        | none => do pure (← get).arguments
      if ← goesOn then
        setStatus 0
        inLoop (runEach run name body values)
    | .select line word arms =>
      modify fun m => { m with line }
      let subject ← Word.text word
      if ← goesOn then
        setStatus 0
        runArms run isLast subject arms
    | .subshell line c rs =>
      modify fun m => { m with line }
      if isLast && !(← get).hasTraps then run true (withTarget line c rs)
      else
        apart id (withTarget line c rs)
        checked
        takeSignals run
    | .redirected line c rs =>
      modify fun m => { m with line }
      let _ ← withRedirects rs (run false c)
    | .define name body =>
      modify fun m => { m with
        functions := (name, body) :: m.functions.filter (·.1 != name), status := 0 }
    | .program args => become run args

end Act

end Doctest.Shell
