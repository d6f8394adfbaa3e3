import Doctest.Diagnostic.Style

/-! How the command line is used. -/
namespace Doctest.Cli.Usage

open Segment

def version : String := "0.1.0"

def versionLine : String :=
  "docsnip " ++ version ++ "\n"

def command (name : String) : Segment :=
  colored .green name

def argument (name : String) : Segment :=
  colored .cyan name

def heading (text : String) : Segment :=
  boldColored .yellow text

/-- Commands, whether they take a path, and what they do. -/
def commands : List (String × Bool × String) :=
  [("test", true, "   Compile and run every test snippet"),
    ("list", true, "   List test snippets without compiling"),
    ("help", false, "          Show this help"),
    ("version", false, "       Show version")]

def options : List (String × String) :=
  [("--crate <name>", "    Crate name used in imports"),
    ("--classpath <dirs>", "  Library search path, platform path-list syntax"),
    ("--extern <name>", "   Extra crate passed to rustc, repeatable"),
    ("--no-extern", "         Do not pass the documented crate to rustc"),
    ("--workspace <dir>", " Directory for compiled snippets (kept)"),
    ("--timeout <secs>", "  Seconds per snippet, 0 disables"),
    ("--format <f>", "     Output format: human or json"),
    ("--json", "            Output format json"),
    ("--strict", "          Exit with status 1 if any snippet failed or errored"),
    ("-v", "            More logging, repeatable")]

def environment : List (String × String) :=
  [("DOCSNIP_CLASSPATH", "  Library search path"),
    ("DOCSNIP_RUSTC", "      Compiler to run (else RUSTC, else rustc)"),
    ("DOCSNIP_EDITION", "    Edition for snippets (default 2021)"),
    ("DOCSNIP_TIMEOUT", "    Seconds per snippet (default 60)"),
    ("DOCSNIP_WORKSPACE", "  Directory for compiled snippets"),
    ("DOCSNIP_LOG", "        Log filter (default warn)")]

def commandLine : String × Bool × String → List Segment
  | (name, true, use) => [plain "  ", command name, plain " ", argument "[path]", plain use]
  | (name, false, use) => [plain "  ", command name, plain use]

def entryLine : String × String → List Segment
  | (name, use) => [plain "  ", argument name, plain use]

def lines : List (List Segment) :=
  [[bold "docsnip", plain " ", dimmed version, plain " - Run the test snippets in your doc comments"],
    [],
    [heading "Usage", plain ": ", command "docsnip", plain " ", argument "<command>", plain " ",
      argument "[args]"],
    [],
    [heading "Commands:"]] ++
  commands.map commandLine ++
  [[],
    [argument "[path]",
      plain " is a crate directory or a root source file (default: current directory)"],
    [],
    [heading "Options:"]] ++
  options.map entryLine ++
  [[],
    [heading "Environment:"]] ++
  environment.map entryLine

def text (color : Bool) : String :=
  renderLines color lines

end Doctest.Cli.Usage
