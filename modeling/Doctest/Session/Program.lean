import Doctest.Session.Run
import Doctest.Session.Workspace
import Doctest.Shell.Launch
import Doctest.Unit.Artifact

/-! Tools that run programs: a compiler, and what it makes of the units. -/
namespace Doctest

open Shell

/-- The variables that are set, with their values. -/
abbrev Environment := List (String × Bytes)

/-- Where temporary files are made. -/
def Environment.temporary (e : Environment) : Path :=
  ((e.lookup "TMPDIR").map Path.mk).getD (.ofString "/tmp")

namespace ProgramFailure

def ofFinished (f : Finished) : ProgramFailure where
  exitCode := match f.ending with
    | some (.exited code) => some code
    | some (.killed _) | none => none
  timedOut := f.ending.isNone
  stdout := f.stdout.toStringLossy
  stderr := f.stderr.toStringLossy

end ProgramFailure

namespace Config

/-- The arguments that ask the compiler for a unit. The unit itself is its input. -/
def compilerArgs (c : Config) (out : Path) (u : TestUnit) : List Bytes :=
  ["-", "--crate-name", u.name, "--crate-type", "bin", "--edition", c.edition.spelling,
      "--error-format=json"].map Bytes.ofString ++
    c.classpath.flatMap (fun dir => [Bytes.ofString "-L", dir.bytes]) ++
    c.externs.flatMap (fun name => [Bytes.ofString "--extern", Bytes.ofString name]) ++
    [Bytes.ofString "-o", out.bytes]

/-- Compiles a unit into a file of its name in the workspace. -/
def compile (c : Config) (env : Environment) (workspace : Path) (u : TestUnit)
    (t : FileTree) : Except UnitError Unit × FileTree :=
  let l : Launch :=
    { program := c.compiler
      args := c.compilerArgs (workspace.join (.ofString u.name)) u
      env
      input := some (Bytes.ofString u.source)
      limit := none
      patience := none }
  match l.run t with
  | .error e => (.error (.compilerNotStarted c.compiler e.message), t)
  | .ok f =>
    (if f.ending = some (.exited 0) then .ok ()
      else .error (.notCompiled u.name (.ofString f.stderr.toStringLossy)), f.files)

end Config

/-- A path that no program can be started from is not kept. -/
def shownProgram (program : Path) : Path :=
  if 0 ∈ program.bytes then .ofString "<string-with-nul>" else program

/-- For so many milliseconds output is read after the end of a program that others still write to. -/
def outputPatience : Nat := 500

/-- Runs a compiled unit without input, for at most `limit` milliseconds. -/
def Outcome.ofProgram (env : Environment) (limit : Option Nat) (program : Path)
    (t : FileTree) : Outcome × FileTree :=
  match (Launch.mk program [] env none limit (some outputPatience)).run t with
  | .error e => (.errored (.notStarted (shownProgram program) e.message), t)
  | .ok f => (if f.ending = some (.exited 0) then .passed else .failed (.ofFinished f), f.files)

namespace Config

/-- The compiler, the search path and the programs of a configuration. -/
def tools (c : Config) (env : Environment) (workspace : Path) : Tools FileTree where
  compile := c.compile env workspace
  resolve name t :=
    let dirs := Artifact.searched c.classpath workspace
    match Artifact.find? t dirs name with
    | some program => (.ok program, t)
    | none => (.error (.notFound name dirs), t)
  execute := Outcome.ofProgram env (c.timeout.map (· * 1000))

/-- The workspace that a configuration names, or a fresh one among temporary files. -/
def acquire (c : Config) (temporary : Path) (t : FileTree) : Workspace × FileTree :=
  match c.workspace with
  | some path => (.given path, t)
  | none => Workspace.acquireIn t temporary

/-- Runs the snippets of an outline and releases the workspace. -/
def run (c : Config) (env : Environment) (t : Outline) (roots : List Nat) (files : FileTree) :
    Tally × Progress FileTree :=
  let (w, files) := c.acquire env.temporary files
  let (tally, p) := (c.tools env w.path).run t roots (.start files)
  (tally, { p with tools := (w.release p.tools).2 })

end Config

end Doctest
