import Doctest.Diagnostic.Layout
import Doctest.Files.Tree

/-! What a command prints and leaves behind. -/
namespace Doctest.Cli

inductive Channel
  | output | errors
deriving DecidableEq, Repr

structure Answer where
  /-- Texts in the order in which they are printed. -/
  printed : List (Channel × String)
  code : Nat
  files : FileTree
deriving Repr

namespace Answer

def text (channel : Channel) (a : Answer) : String :=
  String.join ((a.printed.filter (·.1 == channel)).map (·.2))

def stdout (a : Answer) : String :=
  a.text .output

def stderr (a : Answer) : String :=
  a.text .errors

def ofOutput (t : FileTree) (text : String) : Answer :=
  ⟨[(.output, text)], 0, t⟩

open Segment in
/-- A failure with a message, and what is printed after it. -/
def ofError (color : Bool) (t : FileTree) (message : String) (after : List (Channel × String)) : Answer :=
  ⟨(.errors, renderLines color [[boldColored .red "error", plain (": " ++ message)]]) :: after, 1, t⟩

end Answer

/-- A diagnostic is followed by an empty line. -/
def printedDiagnostic (color : Bool) (d : Diagnostic) : Channel × String :=
  (.errors, d.format color none ++ "\n")

end Doctest.Cli
