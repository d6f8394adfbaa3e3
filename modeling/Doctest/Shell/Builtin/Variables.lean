import Doctest.Shell.Builtin

/-! The commands of the shell that mark variables, forget them, and give them values. -/
namespace Doctest.Shell.Builtin

open Act

/-- A name and the value that an argument assigns to it. -/
def assignment (arg : Text) : Text × Option Text :=
  match Doctest.Text.splitFirst? '=' arg with
  | some (name, value) => (name, some value)
  | none => (arg, none)

/-- Does something with the name that an argument begins with, and the value it assigns. -/
def withName (arg : Text) (act : Text → Option Text → Act Unit) : Act Unit := do
  let (name, value) := assignment arg
  if isName name then act name value
  else fail (name ++ textOf ": bad variable name")

/-- Marks variables, and gives values to them. -/
def mark (name : String) (p : Variable → Bool) (f : Variable → Variable) : Builtin := fun args =>
  withOptions ['p'] args fun _ operands => do
  setStatus 0
  if operands.isEmpty then
    let m ← get
    print (textOf name) (.ofText (listing (textOf (name ++ " ")) p m))
  else
    for arg in operands do
      if ← goesOn then
        withName arg fun name value => do
          if let some value := value then assign name value
          if ← goesOn then
            modify fun m =>
              m.putVariable name (some (f ((m.values.lookup name).getD ⟨none, false, false⟩)))

/-- Makes variables those of the function that runs. -/
def declare : Builtin := fun args => do
  setStatus 0
  for arg in args do
    if ← goesOn then
      withName arg fun name value => do
        match (← get).locals with
        | [] => fail (textOf "not in a function")
        | own :: others =>
          modify fun m => { m with locals := ((name, m.values.lookup name) :: own) :: others }
          if let some value := value then assign name value

def unset : Builtin := fun args =>
  withOptions ['f', 'v'] args fun os names => do
  setStatus 0
  for name in names do
    if ← goesOn then
      if os.contains 'f' then
        modify fun m => { m with functions := m.functions.filter (·.1 != name) }
      else if !isName name then fail (name ++ textOf ": bad variable name")
      else if (← get).isReadOnly name then fail (name ++ textOf ": is read only")
      else modify fun m => m.putVariable name none

/-- Cuts one field off a line that is read, in which some characters are quoted. The last name takes
all that is left. -/
def assignFields (separators : Text) : List Text → List (Char × Bool) → Act Unit
  | [], _ => pure ()
  | name :: names, line => do
    let isSeparator (c : Char × Bool) : Bool := !c.2 && separators.contains c.1
    let isGap (c : Char × Bool) : Bool := isSeparator c && Machine.blanks.contains c.1
    let line := line.dropWhile isGap
    if !isName name then fail (name ++ textOf ": bad variable name")
    else if names.isEmpty then assign name ((line.reverse.dropWhile isGap).reverse.map (·.1))
    else
      let field := line.takeWhile (!isSeparator ·)
      let rest := (line.drop field.length).dropWhile isGap
      let rest := match rest with
        | c :: cs => if isSeparator c then cs else rest
        | [] => []
      assign name (field.map (·.1))
      if ← goesOn then assignFields separators names rest

/-- The characters of a line, where a backslash quotes the next one, and whether the line goes on. -/
def unescaped : Text → List (Char × Bool) × Bool
  | '\\' :: c :: cs =>
    let (line, goesOn) := unescaped cs
    ((c, true) :: line, goesOn)
  | ['\\'] => ([], true)
  | c :: cs =>
    let (line, goesOn) := unescaped cs
    ((c, false) :: line, goesOn)
  | [] => ([], false)

/-- Reads a line with those that continue it, and says whether it had an end. -/
def readLine (isRaw : Bool) : (fuel : Nat) → Act (List (Char × Bool) × Bool)
  | 0 => pure ([], false)
  | fuel + 1 => do
    let s ← input (.lines 1)
    if s.isEndless then await .never
    let (text, rest, isEnded) := match Doctest.Text.splitFirst? '\n' s.text with
      | some (line, rest) => (line, rest, true)
      | none => (s.text, [], false)
    leaveInput (.ofText rest)
    let (line, isContinued) := if isRaw then (text.map (·, false), false) else unescaped text
    if isContinued && isEnded then
      let (more, isEnded) ← readLine isRaw fuel
      pure (line ++ more, isEnded)
    else pure (line, isEnded)

/-- At most so many lines are read as one. -/
def maxContinued : Nat := 10000

def read : Builtin := fun args => do
  match ({ OptionTable.ofLetters "r" "p" with isPlain := true }).parse args with
  | .error (.unknown c) => fail (textOf "Illegal option -" ++ [c])
  | .error (.noValue c) => fail (textOf "No arg for -" ++ [c] ++ textOf " option")
  | .error _ => fail (textOf "Illegal option --")
  | .ok (_, []) => fail (textOf "arg count")
  | .ok (os, names) =>
    let (line, isEnded) ← readLine (os.has "r") maxContinued
    setStatus (if isEnded then 0 else 1)
    assignFields (← get).separators names line

/-- What is found where options are looked for. -/
inductive Scanned
  | option (c : Char) (value : Text)
  | unknown (c : Char)
  | noValue (c : Char)
  | ended

/-- Whether a letter is known as an option, and whether it takes a value. -/
def isValued? (c : Char) : Text → Option Bool
  | [] => none
  | known :: cs =>
    if known = c then some (cs.head? = some ':')
    else
      match cs with
      | ':' :: rest => isValued? c rest
      | rest => isValued? c rest

/-- The letters that are left at a place, if it is in an argument. -/
def lettersAt (args : List Text) (place : OptionPlace) : Text :=
  match place.offset with
  | some n => (args.getD (place.index - 2) []).drop n
  | none => []

/-- Finds the next option among arguments, and the place behind it. -/
def scan (known : Text) (args : List Text) (place : OptionPlace) : Scanned × OptionPlace :=
  let after (index : Nat) (letters : Text) : OptionPlace :=
    ⟨index, some ((args.getD (index - 2) []).length - letters.length)⟩
  let found (index : Nat) (c : Char) (letters : Text) : Scanned × OptionPlace :=
    match isValued? c known, letters, args[index - 1]? with
    | none, _, _ => (.unknown c, after index letters)
    | some false, _, _ => (.option c [], after index letters)
    | some true, [], none => (.noValue c, ⟨index, none⟩)
    | some true, [], some value => (.option c value, ⟨index + 1, none⟩)
    | some true, value, _ => (.option c value, ⟨index, none⟩)
  match lettersAt args place, args[place.index - 1]? with
  | c :: letters, _ => found place.index c letters
  | [], some ['-', '-'] => (.ended, ⟨place.index + 1, none⟩)
  | [], some ('-' :: c :: letters) => found (place.index + 1) c letters
  | [], _ => (.ended, ⟨place.index, none⟩)

/-- Finds one option after another among arguments. What is wrong with one is said in words or, on demand,
by the variables alone. -/
def getopts : Builtin
  | known :: name :: rest => do
    let m ← get
    let args := if rest.isEmpty then m.arguments else rest
    let place := if args.length + 1 < m.optionPlace.index then .start else m.optionPlace
    let (found, place) := scan known args place
    let isQuiet := known.head? = some ':'
    let argument : Text := "OPTARG".toList
    let setArgument (value : Text) : Act Unit := modify fun m => m.setVariable argument value
    let refuse (c : Char) (words : Text) : Act Unit := do
      if isQuiet then setArgument [c]
      else
        say words
        modify fun m => m.putVariable argument none
    match found with
    | .option _ value => setArgument value
    | .unknown c => refuse c (textOf "Illegal option -" ++ [c])
    | .noValue c => refuse c (textOf "No arg for -" ++ [c] ++ textOf " option")
    | .ended => pure ()
    modify fun m => m.setVariable "OPTIND".toList (digits place.index)
    setStatus (if let .ended := found then 1 else 0)
    let letter := match found with
      | .option c _ => c
      | .noValue _ => if isQuiet then ':' else '?'
      | .unknown _ | .ended => '?'
    if isName name then assign name [letter] else fail (name ++ textOf ": bad variable name")
    modify fun m => { m with optionPlace := place }
  | _ => fail (textOf "Usage: getopts optstring var [arg...]")

end Doctest.Shell.Builtin
