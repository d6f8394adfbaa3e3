import Doctest.Outline.Basic
import Doctest.Snippet.Basic
import Doctest.Unit.NameRegistry

/-! The program that is made of a snippet so that it can be compiled and run on its own. -/
namespace Doctest

structure TestUnit where
  name : String
  imports : List String
  body : String
deriving DecidableEq, Repr

namespace TestUnit

open Text

/-- What the function around the body gives back, so that the body may use the question mark. -/
def resultType : String :=
  "::std::result::Result<(), ::std::boxed::Box<dyn ::std::error::Error>>"

/-- The lines before the body, each ended by a newline. -/
def prologue (u : TestUnit) : List String :=
  ["#![allow(unused_imports, non_snake_case, dead_code)]"] ++
  u.imports.map (fun path => "use " ++ path ++ ";") ++
  ["",
    "pub mod " ++ u.name ++ " \x7b",
    "    use super::*;",
    "    #[allow(unreachable_code, unused_variables, unused_mut)]",
    "    pub fn test() -> " ++ resultType ++ " \x7b",
    "        \x7b"]

/-- The lines after the body. -/
def epilogue (u : TestUnit) : List String :=
  ["        \x7d;",
    "        Ok(())",
    "    \x7d",
    "\x7d",
    "",
    "fn main() \x7b",
    "    if let Err(error) = " ++ u.name ++ "::test() \x7b",
    "        eprintln!(\"Error: \x7b:?\x7d\", error);",
    "        ::std::process::exit(1);",
    "    \x7d",
    "\x7d"]

def unlines (lines : List String) : String :=
  String.join (lines.map (· ++ "\n"))

/-- The text of the program. The body gets a newline at the end unless it has one. -/
def source (u : TestUnit) : String :=
  let stop := if u.body.toList.getLast? = some '\n' then "" else "\n"
  unlines u.prologue ++ u.body ++ stop ++ unlines u.epilogue

/-- The line of the source that holds the first line of the body. -/
def bodyStart (u : TestUnit) : Nat :=
  u.imports.length + 8

/-- The line in the file of the snippet that a line of the source came from, if it is one of the body. -/
def snippetLine? (u : TestUnit) (s : Snippet) (line : Nat) : Option Nat :=
  if u.bodyStart ≤ line ∧ line - u.bodyStart < s.lineCount then
    some (s.bodyLine + (line - u.bodyStart))
  else none

/-- Letters and digits in ASCII and the underscore make up names; anything else becomes an
underscore. -/
def sanitize (name : String) : String :=
  String.ofList (name.toList.map fun c => if c.isAlphanum || c = '_' then c else '_')

/-- The tag of the element's kind and the names from the root down to it. -/
def baseName (t : Outline) (id : Nat) : String :=
  let tag := ((t.get? id).map (·.kind.tag)).getD ""
  sanitize ("_".intercalate (tag :: t.path id))

/-- Everything in the nearest namespace, then the parts of the import attributes. -/
def importsOf (t : Outline) (id : Nat) (s : Snippet) : List String :=
  let glob := (t.enclosingNamespace? id).map fun space => "::".intercalate (t.path space) ++ "::*"
  let parts := (s.values "import").flatMap fun value => splitOn ',' value.toList
  glob.toList ++ ((parts.map trim).filter (!·.isEmpty)).map String.ofList

/-- The unit of a snippet on an element, under a name that no other unit has. -/
def synthesize (t : Outline) (id : Nat) (s : Snippet) (r : NameRegistry) :
    TestUnit × NameRegistry :=
  let (name, r) := r.register (baseName t id)
  (⟨name, importsOf t id s, s.body⟩, r)

end TestUnit

end Doctest
