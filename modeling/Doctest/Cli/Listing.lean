import Doctest.Cli.Answer
import Doctest.Cli.Target
import Doctest.Json.Value
import Doctest.Session.Plan

/-! The list of the test snippets that a run would execute. -/
namespace Doctest.Cli.Listing

open JsonValue (ofString ofFields)
open Segment

def planned (target : Target) : List Planned :=
  target.crate.outline.plan [target.crate.root]

def line (p : Planned) : List Segment :=
  if p.ignored then [dimmed p.location, plain ("  " ++ p.element ++ " (ignored)")]
  else [dimmed p.location, plain "  ", bold p.unit, plain (" (" ++ p.element ++ ")")]

def countLine (ps : List Planned) : List Segment :=
  [plain (toString ps.length ++ " test snippets, " ++
    toString (ps.filter (·.ignored)).length ++ " ignored")]

/-- The warnings of the crate, then a line for each snippet. -/
def human (color : Bool) (t : FileTree) (target : Target) : Answer :=
  let ps := planned target
  let warnings := target.crate.warnings.map fun w => printedDiagnostic color w.toDiagnostic
  ⟨warnings ++ [(.output, renderLines color (ps.map line ++ [countLine ps]))], 0, t⟩

def value (p : Planned) : JsonValue :=
  ofFields [("unit", ofString p.unit), ("element", ofString p.element),
    ("location", ofString p.location), ("ignored", .bool p.ignored)]

def json (t : FileTree) (target : Target) : Answer :=
  .ofOutput t ((ofFields [("crate", ofString target.crateName),
    ("snippets", .array ((planned target).map value))]).pretty ++ "\n")

end Doctest.Cli.Listing
