import Doctest.Cli.Listing
import Doctest.Cli.TestReport
import Doctest.Cli.Usage
import Doctest.Session.Program

/-! The commands and what they answer. -/
namespace Doctest.Cli

inductive Command
  | usage
  | version
  | list (args : List String)
  | test (args : List String)
  | unknown (name : String)
deriving DecidableEq, Repr

namespace Command

/-- An argument that asks for more logging, in any place. -/
def isVerbosity (arg : String) : Bool :=
  arg == "--verbose" ||
    match arg.toList with
    | '-' :: letters => !letters.isEmpty && letters.all (· = 'v')
    | _ => false

def ofArgs (args : List String) : Command :=
  match args.filter (!isVerbosity ·) with
  | [] | "help" :: _ | "--help" :: _ | "-h" :: _ => usage
  | "version" :: _ | "--version" :: _ | "-V" :: _ => version
  | "list" :: rest => list rest
  | "test" :: rest => test rest
  | name :: _ => unknown name

/-- Whether output has colours where it does not go to a terminal. -/
def isColored (env : Environment) : Bool :=
  if (env.lookup "NO_COLOR").isSome then false
  else if (env.lookup "FORCE_COLOR").isSome then true
  else ((env.lookup "CLICOLOR_FORCE").bind (·.toString?)).any (· != "0")

def listUsage : String :=
  "Usage: docsnip list [path] [--crate NAME]\n"

def testUsage : String :=
  "Usage: docsnip test [path] [options]\n"

/-- Reads the options and loads the crate for a command, or says what is wrong. -/
def prepare (color : Bool) (t : FileTree) (usage : String) (args : List String) :
    Except Answer (Options × Target) := do
  let o ← (Options.read args).mapError fun e =>
    Answer.ofError color t e.message [(.errors, usage)]
  let target ← (Target.load t o).mapError fun e => Answer.ofError color t e.message []
  pure (o, target)

def runList (color : Bool) (t : FileTree) (args : List String) : Except Answer Answer := do
  let (o, target) ← prepare color t listUsage args
  pure (if o.isJson then Listing.json t target else Listing.human color t target)

/-- Runs the snippets of a crate. The status tells of failures only on demand. -/
def runTest (color : Bool) (env : Environment) (t : FileTree) (args : List String) :
    Except Answer Answer := do
  let (o, target) ← prepare color t testUsage args
  let c ← (o.config (fun name => env.lookup name) target.crateName).mapError fun e =>
    Answer.ofError color t e.message []
  let (tally, p) := c.run env target.crate.outline [target.crate.root] t
  let code := if o.isStrict && !tally.isSuccess then 1 else 0
  if o.isJson then
    match TestReport.value? target tally p.reports with
    | some v => pure ⟨[(.output, v.pretty ++ "\n")], code, p.tools⟩
    | none =>
      .error (.ofError color p.tools
        "cannot serialize report: path contains invalid UTF-8 characters" [])
  else pure ⟨TestReport.human color target p.reports, code, p.tools⟩

def run (env : Environment) (t : FileTree) (c : Command) : Answer :=
  let color := isColored env
  let either : Except Answer Answer → Answer
    | .ok a | .error a => a
  match c with
  | usage => .ofOutput t (Usage.text color)
  | version => .ofOutput t Usage.versionLine
  | list args => either (runList color t args)
  | test args => either (runTest color env t args)
  | unknown name =>
    .ofError color t ("unknown command `" ++ name ++ "`")
      [(.errors, "\n"), (.output, Usage.text color)]

end Command

end Doctest.Cli
