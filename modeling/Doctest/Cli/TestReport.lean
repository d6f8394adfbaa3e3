import Doctest.Cli.Answer
import Doctest.Cli.Target
import Doctest.Diagnostic.Report
import Doctest.Session.Run

/-! What a run prints: a line for each snippet, or a report in JSON. -/
namespace Doctest.Cli.TestReport

open JsonValue (ofString ofNat ofFields)
open Segment

def statusSegment : Status → Segment
  | .passed => colored .green "ok"
  | .failed => boldColored .red "FAILED"
  | .skipped => colored .yellow "ignored"
  | .errored => colored .red "ERROR"

/-- A skipped snippet has no unit and goes by its element. -/
def eventLine (e : SnippetEvent) : List Segment :=
  [plain "test ", bold (if e.status = .skipped then e.element else e.unit), plain " (",
    dimmed e.location, plain ") ... ", statusSegment e.status]

/-- A rule, and how the run ended below it. -/
def summaryLines (t : Tally) : List (List Segment) :=
  [[dimmed (String.ofList (List.replicate 50 '─'))],
    [boldColored (if t.isSuccess then .green else .red) t.summary]]

def printed (color : Bool) : RunReport → Channel × String
  | .diagnostic d => printedDiagnostic color d
  | .finished e => (.output, renderLines color [eventLine e])
  | .summary t => (.output, renderLines color (summaryLines t))

/-- The warnings of the crate, then all reports in order. -/
def human (color : Bool) (target : Target) (reports : List RunReport) : List (Channel × String) :=
  target.crate.warnings.map (fun w => printedDiagnostic color w.toDiagnostic) ++
    reports.map (printed color)

def statusName : Status → String
  | .passed => "passed"
  | .failed => "failed"
  | .skipped => "skipped"
  | .errored => "errored"

def eventValue (e : SnippetEvent) : JsonValue :=
  ofFields [("unit", ofString e.unit), ("element", ofString e.element),
    ("location", ofString e.location), ("status", ofString (statusName e.status))]

def tallyValue (t : Tally) : JsonValue :=
  ofFields [("pass", ofNat t.passed.toNat), ("fail", ofNat t.failed.toNat),
    ("skip", ofNat t.skipped.toNat), ("error", ofNat t.errored.toNat)]

/-- The warnings of the crate come before the diagnostics of the run. Without the value of some
diagnostic there is none. -/
def value? (target : Target) (tally : Tally) (reports : List RunReport) : Option JsonValue := do
  let diagnostics := target.crate.warnings.map (·.toDiagnostic) ++ RunReport.diagnostics reports
  let values ← diagnostics.mapM (·.reportValue?)
  pure <| ofFields
    [("version", ofNat 1), ("crate", ofString target.crateName), ("success", .bool tally.isSuccess),
      ("result", tallyValue tally),
      ("snippets", .array ((RunReport.events reports).map eventValue)),
      ("diagnostics", .array values)]

end Doctest.Cli.TestReport
