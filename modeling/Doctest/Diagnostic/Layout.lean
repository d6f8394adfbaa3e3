import Doctest.Diagnostic.Basic
import Doctest.Diagnostic.Style

/-! Diagnostics as they are shown on a terminal: a header, the place, an excerpt with line numbers in a
gutter, and notes below it. -/
namespace Doctest.Diagnostic

open Segment

def severityColor : Severity → Color
  | .error => .red
  | .warning => .yellow
  | .note => .blue

def header (d : Diagnostic) : List Segment :=
  boldColored (severityColor d.severity) d.severity.display ::
    match d.code with
    | some code => [plain "[", boldColored .red code, plain "]: ", bold d.message]
    | none => [plain ": ", bold d.message]

/-- The gutter is as wide as the last line number, and at least two characters wide. -/
def gutter (d : Diagnostic) : Nat :=
  max 2 ((d.excerpt.map fun e => (toString (e.firstLine + (e.lines.length - 1))).length).getD 0)

def blanks (n : Nat) : Segment :=
  plain (String.ofList (List.replicate n ' '))

/-- A remark about the diagnostic as a whole, under a label. -/
def remark (gutter : Nat) (label text : String) : List Segment :=
  [blanks (gutter - 1), plain " ", colored .cyan "=", plain " ", boldColored .cyan label,
    plain (": " ++ text)]

/-- The line of the gutter above and below an excerpt. -/
def emptyGutter (gutter : Nat) : List Segment :=
  [blanks gutter, plain " ", colored .blue "|"]

def excerptLine (gutter number : Nat) (line : String) : List Segment :=
  [styled ⟨.bold, some .blue⟩ gutter (toString number), plain " ", colored .blue "|",
    plain (" " ++ line)]

def excerptLines (gutter : Nat) (e : Excerpt) : List (List Segment) :=
  emptyGutter gutter :: e.lines.mapIdx (fun i line => excerptLine gutter (e.firstLine + i) line) ++
    [emptyGutter gutter]

def outputLine (gutter : Nat) (text : Segment) : List Segment :=
  [blanks gutter, plain " ", dimmed "|", plain " ", text]

/-- The lines of captured output up to the limit, then a line that says how many more there are. -/
def outputLines (gutter : Nat) (limit : Option Nat) (output : String) : List (List Segment) :=
  let lines := (Text.lines output.toList).map String.ofList
  let shown := min (limit.getD lines.length) lines.length
  (lines.take shown).map (fun line => outputLine gutter (plain line)) ++
    if shown < lines.length then
      [outputLine gutter (dimmed ("... " ++ toString (lines.length - shown) ++ " more lines"))]
    else []

def layout (limit : Option Nat) (d : Diagnostic) : List (List Segment) :=
  let gutter := d.gutter
  d.header ::
    (d.location.map fun l => [plain "  ", colored .blue "-->", plain (" " ++ l.display)]).toList ++
    (d.element.map fun e => remark gutter "element" (e.kind.tag ++ " " ++ e.path)).toList ++
    (d.excerpt.map (excerptLines gutter)).getD [] ++
    d.notes.map (remark gutter "note") ++
    (d.help.map (remark gutter "help")).toList ++
    (d.output.map (outputLines gutter limit)).getD []

def format (color : Bool) (limit : Option Nat) (d : Diagnostic) : String :=
  renderLines color (d.layout limit)

end Doctest.Diagnostic
