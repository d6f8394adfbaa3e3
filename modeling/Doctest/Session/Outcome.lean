import Doctest.Compiler.Message
import Doctest.Session.Config
import Doctest.Session.Tally
import Doctest.Unit.Basic

/-! How a snippet ended, and the diagnostic that says so. -/
namespace Doctest

/-- Why a unit was not run. Where the system refused something, its own words are kept. -/
inductive UnitError
  | compilerNotStarted (program : Path) (cause : String)
  | compilerCutOff (cause : String)
  | notCompiled (name : String) (output : CompilerOutput)
  | notFound (name : String) (searched : List Path)
  | notStarted (program : Path) (cause : String)
deriving Repr

def UnitError.message : UnitError → String
  | compilerNotStarted program cause =>
    "cannot start compiler `" ++ program.display ++ "`: " ++ cause
  | compilerCutOff cause => "compiler I/O failed: " ++ cause
  | notCompiled name _ => "`" ++ name ++ "` failed to compile"
  | notFound name searched =>
    "no artifact named `" ++ name ++ "` in " ++ toString searched.length ++ " searched directories"
  | notStarted program cause => "cannot start " ++ program.display ++ ": " ++ cause

/-- How a program ended that did not succeed. A killed program has no exit code. -/
structure ProgramFailure where
  exitCode : Option Int
  timedOut : Bool
  stdout : String
  stderr : String
deriving DecidableEq, Repr

def ProgramFailure.display (f : ProgramFailure) : String :=
  if f.timedOut then "killed after timeout"
  else
    match f.exitCode with
    | some code => "exit status: " ++ toString code
    | none => "terminated by signal"

inductive Outcome
  | passed
  | failed (f : ProgramFailure)
  | errored (e : UnitError)
deriving Repr

namespace Outcome

def status : Outcome → Status
  | passed => .passed
  | failed _ => .failed
  | errored _ => .errored

/-- A note on an error of the compiler, with its place in the comment where that is known. -/
def compilerNote (doc : DocComment) (s : Snippet) (u : TestUnit) (m : CompilerMessage) : String :=
  let code := (m.code.map fun c => "[" ++ c ++ "]").getD ""
  let place := match m.primaryLine?.bind (u.snippetLine? s) with
    | some line => " (at " ++ doc.location (line - doc.line) ++ ")"
    | none => ""
  "error" ++ code ++ ": " ++ m.message ++ place

/-- At most this many errors of the compiler become notes. -/
def maxNotes : Nat := 5

/-- What is reported about a program that did not succeed. Its errors go before its output. -/
def ofFailure (f : ProgramFailure) : Diagnostic :=
  let code := if f.timedOut then Code.snippetTimedOut else Code.snippetFailed
  let output := if f.stderr.toList.all Text.isBlank then f.stdout else f.stderr
  (((Diagnostic.bare .error code.title).withCode code.spelling).withNote f.display).withOutput output

def ofError (doc : DocComment) (s : Snippet) (u : TestUnit) (e : UnitError) : Diagnostic :=
  match e with
  | .notCompiled _ output =>
    let d := (Diagnostic.bare .error Code.compileFailed.title).withCode Code.compileFailed.spelling
    ((d.withNote ("unit `" ++ u.name ++ "`")).withNotes
      ((output.errors.take maxNotes).map (compilerNote doc s u))).withOutput output.rendered
  | .compilerNotStarted .. | .compilerCutOff _ =>
    ((Diagnostic.bare .error e.message).withCode Code.compileFailed.spelling).withHelp
      ("set " ++ Config.compilerVar ++ " to the compiler to use")
  | .notFound name searched =>
    ((Diagnostic.bare .error ("compiled snippet `" ++ name ++ "` not found")).withCode
      Code.artifactNotFound.spelling).withNotes (searched.map fun dir => "searched " ++ dir.display)
  | .notStarted .. =>
    ((Diagnostic.bare .error e.message).withCode Code.launchFailed.spelling).withNote
      ("unit `" ++ u.name ++ "`")

/-- The diagnostic of an outcome, if it is a bad one, without its place. -/
def diagnostic? (doc : DocComment) (s : Snippet) (u : TestUnit) : Outcome → Option Diagnostic
  | passed => none
  | failed f => some (ofFailure f)
  | errored e => some (ofError doc s u e)

end Outcome

/-- Adds the element, the line of the fence and the lines of the snippet. -/
def Diagnostic.locate (d : Diagnostic) (t : Outline) (id : Nat) (doc : DocComment) (s : Snippet) :
    Diagnostic :=
  let kind := ((t.get? id).map (·.kind)).getD .crate
  let d := (d.withElement kind (t.qualifiedName id)).withLocation doc.file s.line
  if s.body.isEmpty then d else d.withExcerpt s.bodyLine s.body

end Doctest
