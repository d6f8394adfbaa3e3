import Doctest.Session.Run
import Doctest.Unit.Artifact

/-! Tools that do what a script says, for runs without a compiler. -/
namespace Doctest

/-- What happens to one unit. -/
inductive ScriptStep
  | pass
  | fail (f : ProgramFailure)
  | compileFailed (stderr : String)
  | compilerNotStarted (program : Path) (cause : String)
  | compilerCutOff (cause : String)
  | notFound (searched : List Path)
  | notStarted (program : Path) (cause : String)
deriving DecidableEq, Repr

/-- The steps for the units to come, the step of the unit at hand, and the units compiled so far. -/
structure Script where
  steps : List ScriptStep
  current : ScriptStep
  compiled : List TestUnit

namespace Script

def start (steps : List ScriptStep) : Script :=
  ⟨steps, .pass, []⟩

/-- Every unit takes the next step. After the last step all units pass. -/
def compile (u : TestUnit) (s : Script) : Except UnitError Unit × Script :=
  let step := s.steps.headD .pass
  let result := match step with
    | .compileFailed stderr => .error (.notCompiled u.name (.ofString stderr))
    | .compilerNotStarted program cause => .error (.compilerNotStarted program cause)
    | .compilerCutOff cause => .error (.compilerCutOff cause)
    | _ => .ok ()
  (result, ⟨s.steps.tail, step, s.compiled ++ [u]⟩)

def resolve (name : String) (s : Script) : Except UnitError Path × Script :=
  match s.current with
  | .notFound searched => (.error (.notFound name searched), s)
  | _ => (.ok (.ofString name), s)

def execute (_ : Path) (s : Script) : Outcome × Script :=
  match s.current with
  | .fail f => (.failed f, s)
  | .notStarted program cause => (.errored (.notStarted program cause), s)
  | _ => (.passed, s)

/-- All three tools follow the script. -/
def tools : Tools Script :=
  ⟨compile, resolve, execute⟩

/-- The script compiles and executes, and units are looked for in the directories. -/
def toolsWith (t : FileTree) (dirs : List Path) : Tools Script where
  compile := compile
  resolve name s :=
    match Artifact.find? t dirs name with
    | some program => (.ok program, s)
    | none => (.error (.notFound name dirs), s)
  execute := execute

end Script

end Doctest
