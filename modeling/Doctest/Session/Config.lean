import Doctest.Files.Path

/-! The settings of a run, as environment variables give them. -/
namespace Doctest

/-- Editions of the language that a compiler can be asked for. -/
inductive Edition
  | edition2015 | edition2018 | edition2021 | edition2024
deriving DecidableEq, Repr

namespace Edition

def all : List Edition :=
  [edition2015, edition2018, edition2021, edition2024]

def spelling : Edition → String
  | edition2015 => "2015"
  | edition2018 => "2018"
  | edition2021 => "2021"
  | edition2024 => "2024"

def ofString? (s : String) : Option Edition :=
  all.find? fun e => e.spelling == s

end Edition

/-- A setting that cannot be used, with the name under which it was given. -/
inductive ConfigError
  | invalidTimeout (name value : String)
  | invalidEdition (name value : String)
  | notUnicode (name : String)
deriving DecidableEq, Repr

def ConfigError.message : ConfigError → String
  | invalidTimeout name value =>
    "invalid " ++ name ++ " `" ++ value ++ "`: expected a whole number of seconds"
  | invalidEdition name value =>
    "invalid " ++ name ++ " `" ++ value ++ "`: expected one of " ++
      ", ".intercalate (Edition.all.map (·.spelling))
  | notUnicode name => name ++ " is not valid unicode"

/-- Everything that a run needs besides the outline. -/
structure Config where
  /-- Directories of libraries and of compiled snippets, in the order of the search. -/
  classpath : List Path
  compiler : Path
  edition : Edition
  /-- The seconds that a snippet may take, where there is a limit. -/
  timeout : Option Nat
  /-- The directory for compiled snippets. Without one a fresh directory is made. -/
  workspace : Option Path
  /-- Crates that the compiler is told of. -/
  externs : List String
deriving DecidableEq, Repr

namespace Config

def classpathVar : String := "DOCSNIP_CLASSPATH"

def compilerVar : String := "DOCSNIP_RUSTC"

/-- Where other tools look for the compiler. -/
def sharedCompilerVar : String := "RUSTC"

def editionVar : String := "DOCSNIP_EDITION"

def timeoutVar : String := "DOCSNIP_TIMEOUT"

def workspaceVar : String := "DOCSNIP_WORKSPACE"

def default : Config where
  classpath := []
  compiler := .ofString "rustc"
  edition := .edition2021
  timeout := some 60
  workspace := none
  externs := []

/-- The directories of a list with colons between them. Empty ones are left out. -/
def searchPath (list : Bytes) : List Path :=
  ((Text.splitOn 0x3a list).filter (!·.isEmpty)).map Path.mk

/-- A number below `bound` in decimal digits, with or without a plus sign. -/
def natural? (bound : Nat) (cs : List Char) : Option Nat :=
  let digits := match cs with
    | '+' :: rest => rest
    | _ => cs
  if digits.isEmpty || digits.any (!·.isDigit) then none
  else
    let n := digits.foldl (fun n c => n * 10 + (c.toNat - 0x30)) 0
    if n < bound then some n else none

/-- Seconds, of which none mean that there is no limit. -/
def timeout? (name value : String) : Except ConfigError (Option Nat) :=
  match natural? UInt64.size (Text.trim value.toList) with
  | some 0 => .ok none
  | some n => .ok (some n)
  | none => .error (.invalidTimeout name value)

def edition? (name value : String) : Except ConfigError Edition :=
  let value := String.ofList (Text.trim value.toList)
  match Edition.ofString? value with
  | some e => .ok e
  | none => .error (.invalidEdition name value)

/-- The value of each variable that is set. -/
abbrev Env := String → Option Bytes

/-- The value of a variable, unless it is empty. -/
def value? (env : Env) (name : String) : Option Bytes :=
  (env name).filter (!·.isEmpty)

/-- The value of a variable as `read` understands its text, or the default where it is not set. -/
def setting {α : Type} (env : Env) (name : String) (default : α)
    (read : String → String → Except ConfigError α) : Except ConfigError α :=
  match value? env name with
  | none => .ok default
  | some bytes =>
    match bytes.toString? with
    | some value => read name value
    | none => .error (.notUnicode name)

/-- Reads the environment. Of two bad settings the edition is reported. -/
def ofEnv (env : Env) : Except ConfigError Config := do
  let edition ← setting env editionVar default.edition edition?
  let timeout ← setting env timeoutVar default.timeout timeout?
  pure { default with
    edition
    timeout
    classpath := ((value? env classpathVar).map searchPath).getD default.classpath
    compiler := (((value? env compilerVar).or (value? env sharedCompilerVar)).map Path.mk).getD
      default.compiler
    workspace := (value? env workspaceVar).map Path.mk }

end Config

end Doctest
