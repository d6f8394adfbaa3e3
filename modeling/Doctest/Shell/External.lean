import Doctest.Shell.Builtin

/-! Programs that take the place of the shell in a process. -/
namespace Doctest.Shell

namespace Act

/-- A complaint of a program, with the name under which it was called. -/
def sayOf (p : Program) (w : Text) : Act Unit :=
  say (p.name ++ textOf ": " ++ w)

/-- A length of time in milliseconds: seconds with at most three decimals, or other units. -/
def duration? (cs : Text) : Option Nat := do
  let number := cs.takeWhile fun c => c.isDigit || c = '.'
  let unit ← (([([], 1), (['s'], 1), (['m'], 60), (['h'], 3600), (['d'], 86400)] :
    List (Text × Nat)).lookup (cs.drop number.length))
  let (whole, decimals) := (Doctest.Text.splitFirst? '.' number).getD (number, [])
  if whole.isEmpty ∧ decimals.isEmpty then failure
  let thousandths := (decimals ++ ['0', '0', '0']).take 3
  pure ((← natOf? (whole ++ thousandths)) * unit)

/-- Waits for the sum of some lengths of time. -/
def sleep (p : Program) : Act Unit := do
  let refused := p.args.filter fun a => (duration? a).isNone && a != "infinity".toList
  let parsed := (OptionTable.ofLetters "" "").parse p.args
  if let .error f := parsed then
    sayOf p f.words
    say (Call.advice p.name)
    exit 1
  else if p.args.isEmpty then
    sayOf p (textOf "missing operand")
    say (Call.advice p.name)
    exit 1
  else if !refused.isEmpty then
    for a in refused do sayOf p (textOf "invalid time interval " ++ Call.quoted a)
    say (Call.advice p.name)
    exit 1
  else
    let now := (← get).system.clock
    await (match p.args.mapM duration? with
      | some times => .moment (now + total times)
      | none => .never)
    exit 0

/-- Writes the output of a program, which fails if that is not possible. -/
def emitOf (p : Program) (out : Source) : Act Unit := do
  if let some e ← emit 1 out then
    let (w, status) := Utility.writeFailure p.utility e
    sayOf p (textOf w)
    setStatus status

/-- Runs a program of the system on its arguments and its input. -/
def runUtility (p : Program) (f : Call → Option Reply) : Act Unit := do
  let readsInput := Utility.readsInput p.utility
  let need := match Filter.linesWanted? p.utility p.args with
    | some count => Need.lines count
    | none => .closed
  let source ← if readsInput then input need else pure .empty
  match f ⟨p.name, p.args, source, ← get⟩ with
  | none => await .never
  | some r =>
    if readsInput then leaveInput r.rest
    modify fun m => r.others.foldl (fun m (n, cs) =>
      { m with system := m.system.write n (.ofText cs) }) (m.setFiles r.files)
    for w in r.complaints do sayOf p w
    for w in r.remarks do say w
    setStatus r.status
    emitOf p r.out

/-- Says that arguments are refused, and ends the process. -/
def refuseAs (p : Program) (words : Text) (status : Nat) : Act Unit := do
  sayOf p words
  say (Call.advice p.name)
  exit status

/-- Does something if a program can be run, or says in some words about its name that it cannot. -/
def withProgram (about : Text → Text) (p : Program) (args : List Text) (act : Act Unit) : Act Unit := do
  match Program.findOrRead (← get) (args.headD []) args.tail with
  | .ok _ => act
  | .error e =>
    sayOf p (Call.about (about (args.headD [])) e.words)
    exit (if e = .notFound then 127 else 126)

/-- Becomes another program, if there is one of that name. -/
def changeTo (run : Runner) (about : Text → Text) (p : Program) (args : List Text) : Act Unit :=
  withProgram about p args (run true (.program args))

def commandFailure (inQuotes : Text → Text) (name : Text) : Text :=
  textOf "failed to run command " ++ inQuotes name

/-- Becomes another program with another niceness, which nothing shows, or prints it. -/
def runNice (run : Runner) (p : Program) : Act Unit := do
  let table : OptionTable := ⟨[], ["n"], [("adjustment", "n")], true⟩
  let args := match p.args with
    | ('-' :: d :: ds) :: rest => if d.isDigit then rest else ('-' :: d :: ds) :: rest
    | args => args
  match table.parse args with
  | .error f => refuseAs p f.words 125
  | .ok (_, []) => emitOf p (.ofText ['0', '\n'])
  | .ok (_, args) => changeTo run Call.quoted p args

/-- Becomes another program whose output may wait longer or shorter. -/
def runBuffered (run : Runner) (p : Program) : Act Unit := do
  let table : OptionTable := ⟨[], ["i", "o", "e"], [("input", "i"), ("output", "o"), ("error", "e")], true⟩
  match table.parse p.args with
  | .error f => refuseAs p f.words 125
  | .ok (os, args) =>
    if os.given.isEmpty then refuseAs p (textOf "you must specify a buffering mode option") 125
    else changeTo run (commandFailure Call.quoted) p args

/-- Waits for the end of a process, of which nothing is said. -/
def awaitQuietly (pid : Nat) : Act Ending := do
  await (.ended [pid] false)
  let m ← get
  let ended := m.system.ended.filter (·.1 != pid)
  set { m with system := { m.system with ended } }
  pure ((m.system.ended.lookup pid).getD (.exited 0))

/-- Sends a signal to the other processes of the group. -/
def signalGroup (signal : Nat) : Act Unit :=
  modify fun m =>
    { m with system := { m.system with sent := m.system.sent ++ [(.group m.group, signal)] } }

def timeoutTable : OptionTable where
  flags := ["v", "foreground", "preserve-status"]
  valued := ["k", "s"]
  names := [("kill-after", "k"), ("signal", "s"), ("verbose", "v")]
  isPlain := true

/-- A signal by its number or its name, with or without what all names begin with. -/
def signalOf? (cs : Text) : Option Nat :=
  Signal.ofText? (if (cs.take 3).map Char.toUpper = "SIG".toList then cs.drop 3 else cs)

/-- Ends a group whose time is up: with one signal and, if there is a limit for that too, with another
one. -/
def endGroup (pid signal : Nat) (patience : Option Nat) : Act Unit := do
  signalGroup signal
  if signal = Signal.kill then setFlow (.killed signal)
  else
    match patience with
    | none => pure ()
    | some ms =>
      await (.endedBy pid ((← get).system.clock + ms))
      if ((← get).system.ended.lookup pid).isNone then
        signalGroup Signal.kill
        setFlow (.killed Signal.kill)

/-- Runs a program for a limited time in a group of its own. -/
def runTimed (p : Program) : Act Unit := do
  match timeoutTable.parse p.args with
  | .error f => refuseAs p f.words 125
  | .ok (os, time :: command :: args) =>
    let signal := ((os.value? "s").bind signalOf?).getD Signal.terminate
    match duration? time with
    | none => refuseAs p (textOf "invalid time interval " ++ Call.quoted time) 125
    | some ms =>
      withProgram (commandFailure Call.quoted) p (command :: args) do
        modify fun m => { m with group := m.pid }
        let pid ← fork id (.program (command :: args))
        if ms ≠ 0 then await (.endedBy pid ((← get).system.clock + ms))
        let isLate := ms ≠ 0 ∧ ((← get).system.ended.lookup pid).isNone
        if isLate then endGroup pid signal ((os.value? "k").bind duration?)
        if ← goesOn then
          match ← awaitQuietly pid with
          | .exited status => exit (if isLate ∧ !os.has "preserve-status" then 124 else status)
          | .killed signal =>
            if !isLate then setFlow (.killed signal)
            else exit (if os.has "preserve-status" then 128 + signal else 124)
  | .ok _ =>
    say (Call.advice p.name)
    exit 125

def xargsTable : OptionTable where
  flags := ["0", "o", "p", "r", "t", "x"]
  valued := ["a", "d", "E", "I", "L", "n", "P", "s"]
  names := [("null", "0"), ("no-run-if-empty", "r"), ("verbose", "t"), ("arg-file", "a"), ("delimiter", "d"),
    ("max-lines", "L"), ("max-args", "n"), ("max-procs", "P"), ("replace", "I")]
  isPlain := true

/-- The words of a line, in which marks and backslashes quote blanks. Without its end, a mark quotes
nothing. -/
def quotedWords : (fuel : Nat) → (word : Option Text) → Text → Except Char (List Text)
  | 0, word, _ | _, word, [] => .ok word.toList
  | fuel + 1, word, c :: cs =>
    if c = '\'' ∨ c = '"' then
      match Doctest.Text.splitFirst? c cs with
      | some (inner, rest) =>
        if inner.contains '\n' then .error c else quotedWords fuel (some (word.getD [] ++ inner)) rest
      | none => .error c
    else if c = '\\' then
      match cs with
      | d :: rest => quotedWords fuel (some (word.getD [] ++ [d])) rest
      | [] => .ok word.toList
    else if Doctest.Text.isBlank c then do pure (word.toList ++ (← quotedWords fuel none cs))
    else quotedWords fuel (some (word.getD [] ++ [c])) cs

/-- The arguments of each command that is run for the words of a text. -/
def argumentLists (os : Options) (command : List Text) (cs : Text) : Except Char (List (List Text)) := do
  let separated (c : Char) : List Text :=
    let parts := Doctest.Text.splitOn c cs
    if parts.getLast? = some [] then parts.dropLast else parts
  let lines := (linesOf cs).filter fun line => !line.all Doctest.Text.isBlank
  let wordsOf (line : Text) : Except Char (List Text) := quotedWords (line.length + 1) none line
  let grouped (n : Nat) (items : List (List Text)) : List (List Text) :=
    ((Filter.groupsOf n items.length items).map List.flatten).map (command ++ ·)
  let numberOf (name : String) : Option Nat := (os.value? name).bind natOf?
  match os.value? "I" with
  | some mark =>
    pure (lines.map fun line =>
      let line := line.dropWhile Doctest.Text.isBlank
      command.map fun arg => line.intercalate (splitAt mark arg.length arg))
  | none =>
    let words : List Text ←
      if os.has "0" then pure (separated '\x00')
      else
        match os.value? "d" with
        | some d => pure (separated (if d = ['\\', 'n'] then '\n' else d.headD '\n'))
        | none => wordsOf cs
    let lists ← match numberOf "L" with
      | some n => do pure (grouped n (← lines.mapM wordsOf))
      | none => pure (grouped ((numberOf "n").getD words.length) (words.map ([·])))
    pure (if lists.isEmpty && !os.has "r" then [command] else lists)
where
  /-- The parts of an argument between marks. -/
  splitAt (mark : Text) : (fuel : Nat) → Text → List Text
    | 0, arg => [arg]
    | fuel + 1, arg =>
      match arg with
      | [] => [[]]
      | c :: cs =>
        if mark.isPrefixOf arg && !mark.isEmpty then [] :: splitAt mark fuel (arg.drop mark.length)
        else
          match splitAt mark fuel cs with
          | part :: parts => (c :: part) :: parts
          | [] => [[c]]

/-- An argument as a shell reads it. -/
def asShellWord (arg : Text) : Text :=
  let isPlain : Bool := match arg with
    | [] | ['\x7b'] | ['\x7d'] => false
    | c :: _ => c ≠ '#' && c ≠ '~' && arg.all fun c => !(textOf "\t\n !\"$&'()*;<=>?[\\^\x60|").contains c
  if isPlain then arg
  else '\'' :: arg.flatMap (fun c => if c = '\'' then ['\'', '\\', '\'', '\''] else [c]) ++ ['\'']

/-- Runs commands one after another, none of which reads anything. Gives the status of them all. -/
def runLists (p : Program) (isShown : Bool) : List (List Text) → (status : Nat) → Act Unit
  | [], status => exit status
  | args :: rest, status => do
    if isShown then say (Doctest.Text.joinWith ' ' (args.map asShellWord))
    let name := args.headD []
    if let .error e := Program.findOrRead (← get) name args.tail then
      sayOf p (Call.about name e.words)
      return ← exit (if e = .notFound then 127 else 126)
    let n ← addStream (.file FileTree.nullDevice 0 false)
    let pid ← fork (fun m => m.setHandle 0 (some ⟨n, false⟩)) (.program args)
    match ← awaitQuietly pid with
    | .killed signal =>
      sayOf p (name ++ textOf ": terminated by signal " ++ digits signal)
      exit 125
    | .exited 255 =>
      sayOf p (name ++ textOf ": exited with status 255; aborting")
      exit 124
    | .exited n => runLists p isShown rest (if n = 0 then status else 123)

/-- Runs commands whose last arguments are the words of the input. -/
def runForWords (p : Program) : Act Unit := do
  match xargsTable.parse p.args with
  | .error f => refuseAs p f.words 1
  | .ok (os, command) =>
    let s ← input .closed
    leaveInput .empty
    let command := if command.isEmpty then [textOf "echo"] else command
    match argumentLists os command s.text with
    | .ok lists => runLists p (os.has "t") lists 0
    | .error c =>
      sayOf p (textOf ("unmatched " ++ (if c = '"' then "double" else "single") ++
        " quote; by default quotes are special to xargs unless you use the -0 option"))
      exit 1

def envTable : OptionTable where
  flags := ["i", "0", "v"]
  valued := ["u", "C", "S"]
  names := [("ignore-environment", "i"), ("null", "0"), ("unset", "u"), ("chdir", "C"), ("split-string", "S"),
    ("debug", "v")]
  isPlain := true

/-- Gives variables the values that stand before a command, and becomes it. Without one, shows them all. -/
def withAssignments (run : Runner) (p : Program) (isNull : Bool) : List Text → Act Unit
  | [] => do
    let shown := (← get).values.reverse.filterMap fun (name, v) => v.value.map fun value =>
      name ++ '=' :: value
    emitOf p (.ofText (if isNull then shown.flatMap (· ++ ['\x00']) else unlinesOf shown))
  | arg :: rest => do
    match Doctest.Text.splitFirst? '=' arg with
    | some (name, value) =>
      modify fun m => m.putVariable name (some ⟨some value, true, false⟩)
      withAssignments run p isNull rest
    | none => changeTo run Call.quoted p (arg :: rest)

/-- Changes variables and becomes the program that is named after them. -/
def runEnv (run : Runner) (p : Program) : Act Unit := do
  match envTable.parse p.args with
  | .error f => refuseAs p f.words 125
  | .ok (os, operands) =>
    let isEmpty := os.has "i" || operands.head? = some ['-']
    let operands := if operands.head? = some ['-'] then operands.tail else operands
    if isEmpty then modify fun m => { m with values := [] }
    for name in os.values "u" do modify fun m => m.putVariable name none
    let operands := (os.values "S").flatMap Doctest.Text.words ++ operands
    match os.value? "C" with
    | none => withAssignments run p (os.has "0") operands
    | some dir =>
      let m ← get
      match m.files.resolve (pathOf dir), m.files.isDirectory (pathOf dir) with
      | .ok names, true =>
        set { m with home := names }
        withAssignments run p (os.has "0") operands
      | _, _ =>
        sayOf p (textOf "cannot change directory to " ++ Call.about (Call.quoted dir) FileError.notFound.words)
        exit 125

end Act

end Doctest.Shell
