import Doctest.Files.Path
import Doctest.Text.Lines

/-! Documentation comments with their place, and how comments on one element are put together. -/
namespace Doctest

/-- The text of a comment without its marks, one line per line of the source. -/
structure DocComment where
  text : String
  file : Option Path
  /-- The line of the file that holds the first line of the text. -/
  line : Nat
deriving DecidableEq, Repr

namespace DocComment

/-- The place of a line of the comment, as messages show it. -/
def location (d : DocComment) (offset : Nat) : String :=
  let line := toString (d.line + offset)
  match d.file with
  | some file => file.display ++ ":" ++ line
  | none => "line " ++ line

def newlines (n : Nat) : String :=
  String.ofList (List.replicate n '\n')

/-- The lines that a comment takes up; an empty one takes up one. -/
def height (d : DocComment) : Nat :=
  max 1 (Text.lines d.text.toList).length

def sameFile (d e : DocComment) : Bool :=
  match d.file, e.file with
  | some p, some q => p.isSame q
  | none, none => true
  | _, _ => false

/-- The text of `e` after that of `d`, with a blank line for each line of the file between them. -/
def merge (d e : DocComment) : DocComment :=
  { d with text := d.text ++ newlines (1 + (e.line - (d.line + d.height))) ++ e.text }

/-- Adds a comment at the end. A comment that continues the last one in its file is merged with it. -/
def attach (docs : List DocComment) (e : DocComment) : List DocComment :=
  match docs.getLast? with
  | some d => if d.sameFile e && d.line ≤ e.line then docs.dropLast ++ [d.merge e] else docs ++ [e]
  | none => [e]

end DocComment

/-- A comment that is put together from the doc comments that follow each other in a source. -/
structure DocRun where
  line : Nat
  /-- The line after the last one. -/
  next : Nat
  text : String
deriving DecidableEq, Repr

namespace DocRun

def start (line : Nat) (text : String) : DocRun :=
  ⟨line, line + text.toList.count '\n' + 1, text⟩

/-- The next comment, with a blank line for each line of the source that lies between. -/
def push (r : DocRun) (line : Nat) (text : String) : DocRun :=
  { r with
    next := line + text.toList.count '\n' + 1
    text := r.text ++ DocComment.newlines (1 + (line - r.next)) ++ text }

def extend (r : Option DocRun) (line : Nat) (text : String) : DocRun :=
  r.elim (start line text) (·.push line text)

def toComment (r : DocRun) (file : Option Path) : DocComment :=
  ⟨r.text, file, r.line⟩

end DocRun

end Doctest
