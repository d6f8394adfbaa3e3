import Doctest.Shell.Builtin

/-! The options of a shell, which it is given when it begins or sets itself, and its arguments. -/
namespace Doctest.Shell.Builtin

open Act

/-- The long names of options. The last ones cannot be set by their letters. -/
def settingNames : List (String × Char) :=
  [("errexit", 'e'), ("noglob", 'f'), ("ignoreeof", 'I'), ("interactive", 'i'), ("monitor", 'm'),
    ("noexec", 'n'), ("stdin", 's'), ("xtrace", 'x'), ("verbose", 'v'), ("vi", 'V'), ("emacs", 'E'),
    ("noclobber", 'C'), ("allexport", 'a'), ("notify", 'b'), ("nounset", 'u'), ("privileged", 'p'),
    ("nolog", 'L'), ("debug", 'D')]

def isSetting (c : Char) : Bool :=
  Machine.settingOrder.contains c

/-- What options before the first operand ask for. -/
structure Settled where
  machine : Machine
  /-- Whether a command follows as a text, which only a shell that begins is asked for. -/
  isCommand : Bool
  /-- Lists of all options, as sentences or else as commands. -/
  lists : List Bool
  /-- What stands behind the options, if it is to take the place of the arguments. -/
  operands : Option (List Text)

def sign (isOn : Bool) : Text :=
  [if isOn then '-' else '+']

/-- Sets the options of a cluster. One of them takes a long name from the arguments that follow, which are
given back without it. -/
def settleCluster (atStart isOn : Bool) : Text → Settled → List Text → Except Text (Settled × List Text)
  | [], s, rest => .ok (s, rest)
  | 'o' :: cs, s, name :: rest =>
    match settingNames.lookup (String.ofList name) with
    | some c => settleCluster atStart isOn cs { s with machine := s.machine.change c isOn } rest
    | none => .error (textOf "Illegal option " ++ sign isOn ++ textOf "o " ++ name)
  | 'o' :: cs, s, [] => settleCluster atStart isOn cs { s with lists := s.lists ++ [isOn] } []
  | c :: cs, s, rest =>
    if c = 'c' ∧ atStart then settleCluster atStart isOn cs { s with isCommand := true } rest
    else if isSetting c then
      settleCluster atStart isOn cs { s with machine := s.machine.change c isOn } rest
    else .error (textOf "Illegal option " ++ sign isOn ++ [c])

/-- Sets options. A single sign ends them, and stops what is shown of commands. -/
def settle (atStart : Bool) : (fuel : Nat) → Settled → List Text → Except Text Settled
  | 0, s, _ | _, s, [] => .ok s
  | _, s, ['-'] :: rest =>
    let quiet := if atStart then s.machine else (s.machine.change 'x' false).change 'v' false
    .ok { s with machine := quiet, operands := if rest.isEmpty then none else some rest }
  | _, s, ['-', '-'] :: rest => .ok { s with operands := some rest }
  | fuel + 1, s, arg :: rest =>
    match arg with
    | '-' :: letters => do
      let (s, rest) ← settleCluster atStart true letters s rest
      settle atStart fuel s rest
    | '+' :: letters => do
      let (s, rest) ← settleCluster atStart false letters s rest
      settle atStart fuel s rest
    | operand => .ok { s with operands := some (operand :: rest) }

def settled (atStart : Bool) (m : Machine) (args : List Text) : Except Text Settled :=
  settle atStart (args.length + 1) ⟨m, false, [], none⟩ args

/-- All options, as sentences or as commands that set them. -/
def settingList (m : Machine) (asSentences : Bool) : Text :=
  let line (name : String) (isOn : Bool) : Text :=
    if asSentences then
      textOf name ++ List.replicate (16 - name.length) ' ' ++ textOf (if isOn then "on" else "off")
    else textOf "set " ++ sign isOn ++ textOf "o " ++ textOf name
  unlinesOf ((if asSentences then [textOf "Current option settings"] else []) ++
    settingNames.map fun (name, c) => line name (m.has c))

/-- Gives up the control of jobs, for which there is no terminal. -/
def withoutControl : Act Unit := do
  let m ← get
  if m.has 'm' then
    complain (textOf "can't access tty; job control turned off")
    modify fun m => m.change 'm' false

/-- Sets options and arguments, or shows all variables. -/
def change : Builtin := fun args => do
  setStatus 0
  if args.isEmpty then print (textOf "set") (.ofText (listing [] (·.value.isSome) (← get)))
  else
    match settled false (← get) args with
    | .error w => fail w
    | .ok s =>
      set s.machine
      withoutControl
      if let some args := s.operands then
        modify fun m => { m with arguments := args, optionPlace := .start }
      for asSentences in s.lists do print (textOf "set") (.ofText (settingList s.machine asSentences))

end Doctest.Shell.Builtin
