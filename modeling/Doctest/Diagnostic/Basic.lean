import Doctest.Diagnostic.Code
import Doctest.Outline.Basic

/-! Diagnostics: everything that is reported about a source or a snippet. -/
namespace Doctest

inductive Severity
  | error | warning | note
deriving DecidableEq, Repr

def Severity.display : Severity → String
  | error => "error"
  | warning => "warning"
  | note => "note"

/-- The element that a diagnostic is about. -/
structure ElementRef where
  kind : Element.Kind
  path : String
deriving DecidableEq, Repr

structure Location where
  file : Option Path
  line : Nat
deriving DecidableEq, Repr

def Location.display (l : Location) : String :=
  match l.file with
  | some file => file.display ++ ":" ++ toString l.line
  | none => "line " ++ toString l.line

/-- Consecutive lines of a source, of which the first has the number `firstLine`. -/
structure Excerpt where
  firstLine : Nat
  lines : List String
deriving DecidableEq, Repr

structure Diagnostic where
  severity : Severity
  /-- A code of this program or of a compiler. -/
  code : Option String
  message : String
  element : Option ElementRef
  location : Option Location
  excerpt : Option Excerpt
  notes : List String
  help : Option String
  /-- What a process printed, to be shown as it is. -/
  output : Option String
deriving DecidableEq, Repr

namespace Diagnostic

def bare (severity : Severity) (message : String) : Diagnostic :=
  ⟨severity, none, message, none, none, none, [], none, none⟩

def withCode (d : Diagnostic) (code : String) : Diagnostic :=
  { d with code := some code }

def withElement (d : Diagnostic) (kind : Element.Kind) (path : String) : Diagnostic :=
  { d with element := some ⟨kind, path⟩ }

def withLocation (d : Diagnostic) (file : Option Path) (line : Nat) : Diagnostic :=
  { d with location := some ⟨file, line⟩ }

def withExcerpt (d : Diagnostic) (firstLine : Nat) (text : String) : Diagnostic :=
  { d with excerpt := some ⟨firstLine, (Text.lines text.toList).map String.ofList⟩ }

def withNote (d : Diagnostic) (note : String) : Diagnostic :=
  { d with notes := d.notes ++ [note] }

def withNotes (d : Diagnostic) (notes : List String) : Diagnostic :=
  { d with notes := d.notes ++ notes }

def withHelp (d : Diagnostic) (help : String) : Diagnostic :=
  { d with help := some help }

/-- Output that is blank throughout is left out. -/
def withOutput (d : Diagnostic) (output : String) : Diagnostic :=
  if output.toList.all Text.isBlank then d else { d with output := some output }

def isError (d : Diagnostic) : Bool :=
  d.severity == .error

end Diagnostic

end Doctest
