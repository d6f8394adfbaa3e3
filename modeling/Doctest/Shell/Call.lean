import Doctest.Shell.Options
import Doctest.Shell.Place

/-! How a program is called, and what it answers. -/
namespace Doctest.Shell

/-- How a program is called, and the process that it runs in. -/
structure Call where
  name : Text
  args : List Text
  input : Source
  machine : Machine

/-- What a program did. The rest of its input is left to others. -/
structure Reply where
  out : Source
  /-- Lines for the errors, to which the program's name has not been put, and lines to which it is not
  put. -/
  complaints : List Text
  remarks : List Text
  status : Nat
  rest : Source
  files : FileTree
  /-- What is written to pipes other than the output. -/
  others : List (Nat × Text)

namespace Call

/-- The files as they are before the program runs. -/
def files (c : Call) : FileTree :=
  c.machine.files

def withArgs (c : Call) (args : List Text) : Call :=
  { c with args }

def reply (c : Call) (out : Text) (status : Nat) : Reply :=
  ⟨.ofText out, [], [], status, c.input, c.files, []⟩

def about (subject : Text) (words : String) : Text :=
  subject ++ textOf (": " ++ words)

/-- A word in quotation marks. -/
def quoted (cs : Text) : Text :=
  textOf "‘" ++ cs ++ textOf "’"

def fail (c : Call) (words : Text) (status : Nat) : Reply :=
  { c.reply [] status with complaints := [words] }

def advice (name : Text) : Text :=
  textOf "Try '" ++ name ++ textOf " --help' for more information."

/-- Refuses arguments. -/
def refuse (c : Call) (words : Text) (status : Nat) : Reply :=
  c.fail (words ++ ['\n'] ++ advice c.name) status

/-- Does something with options and operands, if all options are known. -/
def withOptions (c : Call) (t : OptionTable) (status : Nat)
    (act : Options → List Text → Option Reply) : Option Reply :=
  match t.parse c.args with
  | .error f => some (c.refuse f.words status)
  | .ok (os, operands) => act os operands

/-- Whether an operand stands for the standard input. -/
def isInput (c : Call) (operand : Text) : Bool :=
  operand = ['-'] ||
    (match c.machine.place operand, c.machine.handle? 0 with
    | .pipe n _, some h => n == h.stream
    | _, _ => false)

/-- What each operand gives. The input is read to its end where it stands first, and is then empty. -/
def opened (c : Call) (input : Source) : List Text → List (Text × Except FileError Source)
  | [] => []
  | o :: os =>
    if c.isInput o then (o, .ok input) :: c.opened .empty os
    else (o, c.machine.sourceAt o) :: c.opened input os

/-- The files that are named, or the standard input, each with its name, and what is said of those that
cannot be read. -/
def sourcesOr (refusal : Text → FileError → Text) (c : Call) (operands : List Text) :
    List (Text × Source) × List Text :=
  let opened := c.opened c.input (if operands.isEmpty then [['-']] else operands)
  (opened.filterMap (fun (o, s) => s.toOption.map (o, ·)),
    opened.filterMap fun
      | (o, .error e) => some (refusal o e)
      | _ => none)

def sources (c : Call) (operands : List Text) : List (Text × Source) × List Text :=
  sourcesOr (fun o e => about o e.words) c operands

/-- The texts that operands give, unless one of them has no end. -/
def textsOr (refusal : Text → FileError → Text) (c : Call) (operands : List Text) :
    Option (List (Text × Text) × List Text) := do
  let (found, err) := sourcesOr refusal c operands
  pure (← found.mapM fun (name, s) => s.text?.map fun cs => (name, cs), err)

def texts (c : Call) (operands : List Text) : Option (List (Text × Text) × List Text) :=
  textsOr (fun o e => about o e.words) c operands

/-- Answers for files that were named. The standard input has been read if it was among them. -/
def replyFor (c : Call) (operands : List Text) (out : Source) (complaints : List Text) : Reply :=
  { c.reply [] (if complaints.isEmpty then 0 else 1) with
    out
    complaints
    rest := if operands.isEmpty || operands.any c.isInput then .empty else c.input }

end Call

end Doctest.Shell
