import Doctest.Shell.Condition
import Doctest.Shell.Expansion
import Doctest.Shell.Program
import Doctest.Shell.Reading

/-! The commands that a shell carries out itself. -/
namespace Doctest.Shell

/-- What a command does for its arguments. -/
abbrev Builtin := List Text → Act Unit

namespace Act

/-- Writes the output of a command of the shell, which fails if that is not possible. -/
def print (name : Text) (out : Source) : Act Unit := do
  if (← emit 1 out).isSome then
    complain (name ++ textOf ": I/O error")
    setStatus 1

end Act

namespace Builtin

open Act

/-- Carries out a command as the program of its name does. -/
def utility (name : Text) : Builtin := fun args => do
  let m ← get
  match (Utility.find? name).bind fun f => f ⟨name, args, .empty, m⟩ with
  | none => setStatus 1
  | some r =>
    for w in r.complaints do complain w
    setStatus r.status
    print name r.out

/-- The letters of the options that stand before the operands, and the operands. -/
def leading : List Text → Text × List Text
  | ['-', '-'] :: ws => ([], ws)
  | ('-' :: c :: cs) :: ws =>
    let (letters, operands) := leading ws
    (c :: cs ++ letters, operands)
  | ws => ([], ws)

/-- Does something with options, if all of them are known, and operands. -/
def withOptions (known : List Char) (args : List Text) (act : List Char → List Text → Act Unit) :
    Act Unit :=
  let (letters, operands) := leading args
  match letters.find? (!known.contains ·) with
  | some c => fail (textOf "Illegal option -" ++ [c])
  | none => act letters operands

/-- A value as it can be read again. Marks that would end a quotation stand in one of the other kind. -/
def quote : (fuel : Nat) → Text → Text
  | 0, _ => []
  | fuel + 1, cs =>
    let plain := cs.takeWhile (· != '\'')
    let marks := (cs.drop plain.length).takeWhile (· = '\'')
    let rest := cs.drop (plain.length + marks.length)
    ['\''] ++ plain ++ ['\''] ++ (if marks.isEmpty then [] else ['"'] ++ marks ++ ['"']) ++
      (if rest.isEmpty then [] else quote fuel rest)

def quoted (cs : Text) : Text :=
  quote (cs.length + 1) cs

/-- The variables that satisfy a condition, with a word before each. -/
def listing (lead : Text) (p : Variable → Bool) (m : Machine) : Text :=
  let found := (m.values.filter fun v => p v.2).mergeSort fun a b => inOrder a.1 b.1
  found.flatMap fun (name, v) => match v.value with
    | some value => lead ++ name ++ '=' :: quoted value ++ ['\n']
    | none => lead ++ name ++ ['\n']

/-- Shows the current directory. -/
def pwd : Builtin := fun args =>
  withOptions ['L', 'P'] args fun _ _ => utility (textOf "pwd") []

/-- A number of a command's argument, or a complaint about it. -/
def withNumber (arg : Text) (isAllowed : Nat → Bool) (act : Nat → Act Unit) : Act Unit :=
  match (natOf? arg).filter isAllowed with
  | some n => act n
  | none => fail (textOf "Illegal number: " ++ arg)

def exit : Builtin
  | [] => do
    let m ← get
    Act.exit (m.leaving.getD m.status)
  | arg :: _ => withNumber arg (fun _ => true) fun n => Act.exit (n % 256)

def giveBack : Builtin
  | [] => setFlow .giveBack
  | arg :: _ => withNumber arg (fun _ => true) fun n => do
    setStatus (n % 256)
    setFlow .giveBack

/-- Leaves loops, or begins the next round of one. -/
def leave (again : Bool) : Builtin := fun args =>
  withNumber (args.headD ['1']) (0 < ·) fun n => do
    let m ← get
    setStatus 0
    if m.loops ≠ 0 then setFlow (.leave (min n m.loops) again)

def shift : Builtin := fun args =>
  withNumber (args.headD ['1']) (fun _ => true) fun n => do
    let m ← get
    if m.arguments.length < n then fail (textOf "can't shift that many")
    else set { m with arguments := m.arguments.drop n, optionPlace := .start, status := 0 }

def test : Builtin := fun args => do
  match Condition.holds (← get) args with
  | .ok holds => setStatus (if holds then 0 else 1)
  | .error w => fail w

/-- A condition in brackets. -/
def bracket : Builtin := fun args =>
  if args.getLast? = some [']'] then test args.dropLast else fail (textOf "missing ]")

def changeDirectory : Builtin := fun args =>
  withOptions ['L', 'P'] args fun _ operands => do
  let m ← get
  let target := match operands.head? with
    | some ['-'] => (m.valueOf? "OLDPWD".toList).getD []
    | some target => target
    | none => (m.valueOf? "HOME".toList).getD []
  let path := pathOf target
  match m.files.resolve path, m.files.isDirectory path with
  | .ok names, true =>
    let shown (names : List Bytes) : Text :=
      '/' :: Doctest.Text.joinWith '/' (names.map Octets.ofBytes)
    if operands.head? = some ['-'] then print (textOf "cd") (.ofText (shown names ++ ['\n']))
    let m' := ((← get).setVariable "OLDPWD".toList (shown m.home)).setVariable "PWD".toList (shown names)
    set { m' with home := names, status := 0 }
  | _, _ => fail (textOf "can't cd to " ++ target)

/-- How a name would be understood: the words of a description of it, after its name. -/
def meaning? (builtins : List String) (m : Machine) (name : Text) : Option (Text × String) :=
  let isIn (names : List String) : Bool := names.any fun s => s.toList == name
  if isIn Token.reserved then some (name, " is a shell keyword")
  else if (m.functions.lookup name).isSome then some (name, " is a shell function")
  else if isIn specialNames then some (name, " is a special shell builtin")
  else if isIn builtins then some (name, " is a shell builtin")
  else if name.contains '/' then
    if Condition.isExecutable m name then some (name, " is ") else none
  else ((m.candidates name).find? m.isProgram).map fun path => (path, " is ")

/-- Describes names in a word or in a sentence. -/
def describe (builtins : List String) (isShort : Bool) : Builtin := fun names => do
  setStatus 0
  for name in names do
    match meaning? builtins (← get) name with
    | some (found, sentence) =>
      let sentence := textOf sentence
      let text := if isShort then found
        else if sentence = textOf " is " then name ++ sentence ++ found
        else name ++ sentence
      print (textOf "type") (.ofText (text ++ ['\n']))
    | none =>
      if !isShort then print (textOf "type") (.ofText (name ++ textOf ": not found\n"))
      setStatus 127

/-- Describes a name if it is asked to. To run a command is left to others. -/
def command (builtins : List String) : Builtin := fun args =>
  withOptions ['p', 'v', 'V'] args fun os names =>
    if os.contains 'v' ∨ os.contains 'V' then describe builtins (!os.contains 'V') (names.take 1)
    else setStatus 0

/-- Commands that have no effect which a script could see. -/
def nothing : Builtin := fun _ =>
  setStatus 0

end Builtin

end Doctest.Shell
