import Doctest.Diagnostic.Basic
import Doctest.Files.Error
import Doctest.Outline.Reading

/-! What is wrong with the sources of a crate whose outline could be made. -/
namespace Doctest

inductive SourceFault
  | lexical (e : LexError)
  | syntactic (f : SyntaxFault)
  | unreadable (e : ReadError)
deriving DecidableEq, Repr

namespace SourceFault

def message : SourceFault → String
  | lexical e => e.message
  | syntactic f => f.message
  | unreadable e => e.message

def hint? : SourceFault → Option String
  | lexical e => e.hint?
  | syntactic f => f.hint?
  | unreadable _ => none

end SourceFault

/-- A module whose file is nowhere, or a fault at a line of a file. Items after a fault may be
missing. -/
inductive SourceWarning
  | missingModule (name : String) (file : Path) (line : Nat) (searched : List Path)
  | fault (file : Path) (line : Nat) (fault : SourceFault)
deriving DecidableEq, Repr

namespace SourceWarning

def message : SourceWarning → String
  | missingModule name _ _ _ => "file for module `" ++ name ++ "` not found"
  | fault _ _ f => f.message

/-- The place and the message on one line. -/
def display (w : SourceWarning) : String :=
  let place (file : Path) (line : Nat) := file.display ++ ":" ++ toString line ++ ": "
  match w with
  | missingModule _ file line _ => place file line ++ w.message
  | fault file line _ => place file line ++ w.message

def toDiagnostic (w : SourceWarning) : Diagnostic :=
  let d := Diagnostic.bare .warning w.message
  match w with
  | missingModule _ file line searched =>
    ((d.withCode Code.missingModule.spelling).withLocation file line).withHelp
      "snippets in this module are not tested" |>.withNotes
      (searched.map fun p => "looked for " ++ p.display)
  | fault file line f =>
    let d := ((d.withCode Code.badSource.spelling).withLocation file line).withNote
      "items after this point may have been skipped"
    f.hint?.elim d d.withHelp

/-- The warnings about one source text: the faults of its tokens, then those of its items. -/
def ofReading (file : Path) (lines : LineMap) (lexed : Lexed) (r : Outline.Reading) :
    List SourceWarning :=
  lexed.errors.map (fun e => fault file (lines.lineOf e.span.start) (.lexical e)) ++
    r.faults.map fun f => fault file (lines.lineOf f.span.start) (.syntactic f)

end SourceWarning

end Doctest
