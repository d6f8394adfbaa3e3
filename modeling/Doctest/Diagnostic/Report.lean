import Doctest.Diagnostic.Basic
import Doctest.Json.Value

/-! Diagnostics as a report in JSON. -/
namespace Doctest

/-- The kind of an element as reports name it. -/
def Element.Kind.reportName : Element.Kind → String
  | crate => "crate"
  | module => "module"
  | function => "function"
  | struct => "struct"
  | enum => "enum"
  | union => "union"
  | trait => "trait"
  | impl => "impl"
  | constant => "const"
  | static => "static"
  | typeAlias => "typealias"
  | macroDef => "macro"

namespace Diagnostic

open JsonValue (ofString ofNat ofFields)

def ofStrings (texts : List String) : JsonValue :=
  .array (texts.map ofString)

/-- The field, unless the value is absent. -/
def field (key : String) (value : Option JsonValue) : List (String × JsonValue) :=
  value.toList.map (key, ·)

def elementValue (e : ElementRef) : JsonValue :=
  ofFields [("kind", ofString e.kind.reportName), ("path", ofString e.path)]

def excerptValue (e : Excerpt) : JsonValue :=
  ofFields [("first_line", ofNat e.firstLine), ("lines", ofStrings e.lines)]

/-- A path that is not UTF-8 has no value. -/
def locationValue? (l : Location) : Option JsonValue := do
  let file ← match l.file with
    | some file => file.bytes.toString?.map ofString
    | none => some .null
  pure (ofFields [("file", file), ("line", ofNat l.line)])

/-- The fields of a diagnostic, with the category and title of its code. Absent fields are left out. -/
def reportValue? (d : Diagnostic) : Option JsonValue := do
  let code := d.code.bind Code.ofString?
  let location ← d.location.mapM locationValue?
  pure <| ofFields <|
    [("severity", ofString d.severity.display)] ++
    field "code" (d.code.map ofString) ++
    field "category" (code.map fun c => ofString c.category.display) ++
    field "title" (code.map fun c => ofString c.title) ++
    [("message", ofString d.message)] ++
    field "element" (d.element.map elementValue) ++
    field "location" location ++
    field "excerpt" (d.excerpt.map excerptValue) ++
    (if d.notes.isEmpty then [] else [("notes", ofStrings d.notes)]) ++
    field "help" (d.help.map ofString) ++
    field "output" (d.output.map ofString)

end Diagnostic

namespace Report

open JsonValue (ofNat ofFields)

def count (severity : Severity) (ds : List Diagnostic) : Nat :=
  (ds.filter (·.severity == severity)).length

def value? (ds : List Diagnostic) : Option JsonValue := do
  let items ← ds.mapM Diagnostic.reportValue?
  pure <| ofFields
    [("version", ofNat 1),
      ("success", .bool (count .error ds == 0)),
      ("diagnostics", .array items),
      ("error_count", ofNat (count .error ds)),
      ("warning_count", ofNat (count .warning ds))]

/-- The text that stands for a report that has no value. -/
def noValue : String :=
  "\x7b\"error\": \"path contains invalid UTF-8 characters\"\x7d"

def text (ds : List Diagnostic) : String :=
  ((value? ds).map JsonValue.pretty).getD noValue

end Report

end Doctest
