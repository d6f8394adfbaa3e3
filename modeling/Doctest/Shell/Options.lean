import Doctest.Shell.Source

/-! The options of programs: letters in clusters, and long names that may be cut short. -/
namespace Doctest.Shell

/-- The options that a program has, by their letters or their names, those that take a value, and other
names of them. -/
structure OptionTable where
  flags : List String
  valued : List String
  names : List (String × String)
  /-- Whether nothing after an operand is an option. -/
  isPlain : Bool

/-- Options that have been given, each with its value, which is empty where there is none. -/
structure Options where
  given : List (String × Text)

namespace Options

def has (os : Options) (name : String) : Bool :=
  os.given.any (·.1 = name)

/-- The values of an option in the order in which they are given. -/
def values (os : Options) (name : String) : List Text :=
  (os.given.filter (·.1 = name)).map (·.2)

/-- The value that is given last. -/
def value? (os : Options) (name : String) : Option Text :=
  (os.values name).getLast?

/-- The one of some options that is given last. -/
def last? (os : Options) (names : List String) : Option String :=
  ((os.given.map (·.1)).filter (names.contains ·)).getLast?

end Options

/-- Why arguments are no options of a program. -/
inductive OptionFault
  | unknown (c : Char)
  | noValue (c : Char)
  | unknownName (argument : Text)
  | noValueFor (name : String)
  | unwantedValue (name : String)
deriving DecidableEq, Repr

def OptionFault.words : OptionFault → Text
  | unknown c => textOf "invalid option -- '" ++ [c, '\'']
  | noValue c => textOf "option requires an argument -- '" ++ [c, '\'']
  | unknownName argument => textOf "unrecognized option '" ++ argument ++ ['\'']
  | noValueFor name => textOf ("option '--" ++ name ++ "' requires an argument")
  | unwantedValue name => textOf ("option '--" ++ name ++ "' doesn't allow an argument")

namespace OptionTable

/-- Options of one letter only. -/
def ofLetters (flags valued : String) : OptionTable where
  flags := flags.toList.map String.singleton
  valued := valued.toList.map String.singleton
  names := []
  isPlain := false

/-- All long names. -/
def longNames (t : OptionTable) : List String :=
  (t.flags ++ t.valued).filter (1 < ·.length) ++ t.names.map (·.1)

/-- The long name that is meant by a beginning of it: itself, or the only one that begins so. -/
def fullName? (t : OptionTable) (start : Text) : Option String :=
  let isName (n : String) : Bool := n.toList == start
  match t.longNames.find? isName, t.longNames.filter fun n => start.isPrefixOf n.toList with
  | some n, _ => some n
  | none, [n] => some n
  | none, _ => none

/-- The options in a cluster of letters. One that takes a value takes the rest of the cluster or, where
there is none, wants the next argument. -/
def cluster (t : OptionTable) : Text → Except OptionFault (List (String × Text) × Option Char)
  | [] => .ok ([], none)
  | c :: cs =>
    let name := String.singleton c
    if t.valued.contains name then
      .ok (if cs.isEmpty then ([], some c) else ([(name, cs)], none))
    else if t.flags.contains name then do
      let (os, wanting) ← t.cluster cs
      pure ((name, []) :: os, wanting)
    else .error (.unknown c)

/-- The option that a long name with or without a value is, or the option that wants a value. -/
def named (t : OptionTable) (body : Text) : Except OptionFault ((String × Text) ⊕ (String × String)) := do
  let (start, value) := match Doctest.Text.splitFirst? '=' body with
    | some (start, value) => (start, some value)
    | none => (body, none)
  match t.fullName? start with
  | none => .error (.unknownName (['-', '-'] ++ body))
  | some full =>
    let name := (t.names.lookup full).getD full
    match t.valued.contains name, value with
    | true, some value => pure (.inl (name, value))
    | true, none => pure (.inr (name, full))
    | false, none => pure (.inl (name, []))
    | false, some _ => .error (.unwantedValue full)

def parseAll (t : OptionTable) : List Text → Except OptionFault (List (String × Text) × List Text)
  | [] => .ok ([], [])
  | arg :: rest =>
    match arg with
    | ['-', '-'] => .ok ([], rest)
    | '-' :: '-' :: body => do
      match ← t.named body, rest with
      | .inl o, rest =>
        let (os, operands) ← t.parseAll rest
        pure (o :: os, operands)
      | .inr (name, _), value :: rest =>
        let (os, operands) ← t.parseAll rest
        pure ((name, value) :: os, operands)
      | .inr (_, full), [] => .error (.noValueFor full)
    | '-' :: c :: cs => do
      match ← t.cluster (c :: cs), rest with
      | (first, none), rest =>
        let (os, operands) ← t.parseAll rest
        pure (first ++ os, operands)
      | (first, some wanting), value :: rest =>
        let (os, operands) ← t.parseAll rest
        pure (first ++ (String.singleton wanting, value) :: os, operands)
      | (_, some wanting), [] => .error (.noValue wanting)
    | operand =>
      if t.isPlain then .ok ([], operand :: rest)
      else do
        let (os, operands) ← t.parseAll rest
        pure (os, operand :: operands)

/-- The options among some arguments, and the operands. -/
def parse (t : OptionTable) (args : List Text) : Except OptionFault (Options × List Text) := do
  let (given, operands) ← t.parseAll args
  pure (⟨given⟩, operands)

end OptionTable

end Doctest.Shell
