import Doctest.Session.Config

/-! The options of a command, and the configuration that they and the environment make. -/
namespace Doctest.Cli

structure Options where
  path : Option Path
  crateName : Option String
  classpath : Option String
  externs : List String
  /-- Whether the compiler is not told of the documented crate. -/
  isAlone : Bool
  workspace : Option Path
  timeout : Option String
  isJson : Bool
  /-- Whether a snippet that does not pass makes the command fail. -/
  isStrict : Bool
deriving DecidableEq, Repr

inductive OptionError
  | lacksValue (flag : String)
  | unknownFormat (name : String)
  | unknownOption (flag : String)
  | unexpected (argument : String)
deriving DecidableEq, Repr

def OptionError.message : OptionError → String
  | lacksValue flag => flag ++ " requires a value"
  | unknownFormat name => "unknown format `" ++ name ++ "`, expected human or json"
  | unknownOption flag => "unknown option `" ++ flag ++ "`"
  | unexpected argument => "unexpected argument `" ++ argument ++ "`"

namespace Options

def none : Options where
  path := Option.none
  crateName := Option.none
  classpath := Option.none
  externs := []
  isAlone := false
  workspace := Option.none
  timeout := Option.none
  isJson := false
  isStrict := false

/-- An option without a value, or a path. -/
def addWord (o : Options) (arg : String) : Except OptionError Options :=
  match arg with
  | "--no-extern" => .ok { o with isAlone := true }
  | "--json" => .ok { o with isJson := true }
  | "--strict" => .ok { o with isStrict := true }
  | _ =>
    if arg.toList.head? = some '-' then .error (.unknownOption arg)
    else if o.path.isSome then .error (.unexpected arg)
    else .ok { o with path := some (.ofString arg) }

/-- What an option that takes a value does with it. -/
def withValue? (flag : String) : Option (Options → String → Except OptionError Options) :=
  match flag with
  | "--crate" => some fun o v => .ok { o with crateName := some v }
  | "--classpath" => some fun o v => .ok { o with classpath := some v }
  | "--extern" => some fun o v => .ok { o with externs := o.externs ++ [v] }
  | "--workspace" => some fun o v => .ok { o with workspace := some (.ofString v) }
  | "--timeout" => some fun o v => .ok { o with timeout := some v }
  | "--format" => some fun o v =>
    match v with
    | "human" => .ok { o with isJson := false }
    | "json" => .ok { o with isJson := true }
    | _ => .error (.unknownFormat v)
  | _ => Option.none

/-- Adds the arguments one after another. Of two for the same option the later one holds. -/
def add (o : Options) : List String → Except OptionError Options
  | [] => .ok o
  | arg :: rest =>
    match withValue? arg, rest with
    | some set, value :: rest => do (← set o value).add rest
    | some _, [] => .error (.lacksValue arg)
    | Option.none, rest => do (← o.addWord arg).add rest

def read (args : List String) : Except OptionError Options :=
  none.add args

/-- The environment first, then the options on top. The documented crate goes before other crates. -/
def config (o : Options) (env : Config.Env) (crateName : String) : Except ConfigError Config := do
  let c ← Config.ofEnv env
  let timeout ← match o.timeout with
    | some value => Config.timeout? "--timeout" value
    | Option.none => pure c.timeout
  pure { c with
    timeout
    classpath := (o.classpath.map fun list => Config.searchPath (Bytes.ofString list)).getD c.classpath
    workspace := o.workspace.or c.workspace
    externs := c.externs ++ (if o.isAlone then [] else [crateName]) ++ o.externs }

end Options

end Doctest.Cli
