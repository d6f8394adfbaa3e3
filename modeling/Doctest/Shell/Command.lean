/-! Commands of the shell, as they are written. -/
namespace Doctest.Shell

/-- What is written with bytes is text of one character a byte. -/
abbrev Text := List Char

/-- How a file is opened: to be read, even if it has to be made first, or to be written, at its end or in
place of what it held. A file that is written only as a new one may have to be kept. -/
inductive Access
  | read | readOrMake | append | overwrite | writeNew
deriving DecidableEq, Repr

mutual

/-- A piece of a word. Inside quotation marks a piece is not split and stands for itself. -/
inductive Part
  | plain (text : Text)
  | quoted (text : Text)
  | parameter (name : Text) (use : Use) (isQuoted : Bool)
  | output (c : Command) (isQuoted : Bool)
  | arithmetic (expression : List Part) (isQuoted : Bool)
  /-- Something in braces that is no use of a parameter. -/
  | nonsense

/-- What is done with the value of a parameter. -/
inductive Use
  | value
  | length
  /-- The value, or the word where the parameter is not set or, on demand, is empty. -/
  | orElse (orEmpty : Bool) (word : List Part)
  | orAssign (orEmpty : Bool) (word : List Part)
  /-- The value, or a complaint with the word. -/
  | orFail (orEmpty : Bool) (word : List Part)
  | ifSet (orEmpty : Bool) (word : List Part)
  | dropStart (longest : Bool) (pattern : List Part)
  | dropEnd (longest : Bool) (pattern : List Part)

inductive Redirect
  | file (fd : Nat) (access : Access) (word : List Part)
  | duplicate (fd : Nat) (word : List Part)
  | here (fd : Nat) (body : List Part)

inductive Command
  | simple (line : Nat) (assignments : List (Text × List Part)) (words : List (List Part))
      (redirects : List Redirect)
  | pipe (negated : Bool) (stages : List Command)
  | both (first second : Command)
  | either (first second : Command)
  | sequence (cs : List Command)
  | background (c : Command)
  | branch (condition yes no : Command)
  | loop (negated : Bool) (condition body : Command)
  | each (line : Nat) (name : Text) (words : Option (List (List Part))) (body : Command)
  | select (line : Nat) (word : List Part) (arms : List (List (List Part) × Command))
  | subshell (line : Nat) (c : Command) (redirects : List Redirect)
  | redirected (line : Nat) (c : Command) (redirects : List Redirect)
  | define (name : Text) (body : Command)
  /-- A program takes the place of the shell. -/
  | program (args : List Text)

end

abbrev Word := List Part

instance : Inhabited Command :=
  ⟨.sequence []⟩

end Doctest.Shell
