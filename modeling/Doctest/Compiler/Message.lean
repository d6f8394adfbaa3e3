import Doctest.Diagnostic.Basic
import Doctest.Json.Reader

/-! What a compiler prints: messages in JSON, one a line, among other lines. -/
namespace Doctest

/-- A place in the unit that was compiled. -/
structure CompilerSpan where
  line : Nat
  isPrimary : Bool
  label : Option String
deriving DecidableEq, Repr

structure CompilerMessage where
  message : String
  level : String
  code : Option String
  spans : List CompilerSpan
  children : List CompilerMessage
  rendered : Option String
deriving Repr, Inhabited

namespace CompilerMessage

def severity (m : CompilerMessage) : Severity :=
  if "error".toList.isPrefixOf m.level.toList then .error
  else if m.level = "warning" then .warning
  else .note

/-- The line of the first primary span, or else of the first span. -/
def primaryLine? (m : CompilerMessage) : Option Nat :=
  ((m.spans.find? (·.isPrimary)).or m.spans.head?).map (·.line)

/-- The labels of primary spans and the children become notes, and the last child of level help the
help. -/
def toDiagnostic (m : CompilerMessage) : Diagnostic :=
  let labels := (m.spans.filter (·.isPrimary)).filterMap (·.label)
  let start := { Diagnostic.bare m.severity m.message with code := m.code, notes := labels }
  let full := m.children.foldl (fun d child =>
    if child.level = "help" then d.withHelp child.message
    else d.withNote (child.level ++ ": " ++ child.message)) start
  m.rendered.elim full full.withOutput

/-- The fields of an object by name. A known key that stands twice, or a key without text, makes the
object unreadable, and unknown keys are passed over. -/
def fields? (known : List String) : List (Option String × JsonValue) →
    Option (List (String × JsonValue))
  | [] => some []
  | (none, _) :: _ => none
  | (some key, value) :: rest => do
    let fields ← fields? known rest
    if key ∈ known then
      if fields.any (·.1 == key) then none else some ((key, value) :: fields)
    else some fields

/-- A record is an object, or an array of the values of its first fields in order. -/
def record? (known : List String) : JsonValue → Option (List (String × JsonValue))
  | .object fields => fields? known fields
  | .array items =>
    if items.length ≤ known.length then some (known.zip items) else none
  | _ => none

def text? : JsonValue → Option String
  | .string text => text
  | _ => none

def bool? : JsonValue → Option Bool
  | .bool b => some b
  | _ => none

/-- A line number has 32 bits. -/
def line? : JsonValue → Option Nat
  | .number (.natural n) => if n < UInt32.size then some n else none
  | _ => none

/-- Null is a value that is absent. -/
def nullable? {α : Type} (read : JsonValue → Option α) : JsonValue → Option (Option α)
  | .null => some none
  | v => (read v).map some

/-- The value of a field, or a default where the field is absent. -/
def fieldOr {α : Type} (fields : List (String × JsonValue)) (key : String)
    (read : JsonValue → Option α) (default : Option α) : Option α :=
  match fields.lookup key with
  | some v => read v
  | none => default

/-- The items of an array, which counts as a level of nesting. -/
def items? {α : Type} (levels : Nat) (read : Nat → JsonValue → Option α) :
    JsonValue → Option (List α)
  | .array items =>
    match levels with
    | 0 => none
    | levels + 1 => items.mapM (read levels)
  | _ => none

def code? (levels : Nat) (v : JsonValue) : Option String :=
  match levels with
  | 0 => none
  | _ + 1 => do
    let fields ← record? ["code"] v
    fieldOr fields "code" text? none

def span? (levels : Nat) (v : JsonValue) : Option CompilerSpan :=
  match levels with
  | 0 => none
  | _ + 1 => do
    let fields ← record? ["line_start", "is_primary", "label"] v
    let line ← fieldOr fields "line_start" line? none
    let isPrimary ← fieldOr fields "is_primary" bool? (some false)
    let label ← fieldOr fields "label" (nullable? text?) (some none)
    pure ⟨line, isPrimary, label⟩

/-- Reads a message with `levels` levels inside it, of which `read` reads the children. -/
def ofRecord? (levels : Nat) (read : JsonValue → Option (List CompilerMessage)) (v : JsonValue) :
    Option CompilerMessage := do
  let fields ← record? ["message", "level", "code", "spans", "children", "rendered"] v
  let message ← fieldOr fields "message" text? none
  let level ← fieldOr fields "level" text? none
  let code ← fieldOr fields "code" (nullable? (code? levels)) (some none)
  let spans ← fieldOr fields "spans" (items? levels span?) (some [])
  let children ← fieldOr fields "children" read (some [])
  let rendered ← fieldOr fields "rendered" (nullable? text?) (some none)
  pure ⟨message, level, code, spans, children, rendered⟩

/-- Reads a message whose objects and arrays are at most `levels` levels deep. -/
def ofValue? : (levels : Nat) → JsonValue → Option CompilerMessage
  | 0, _ => none
  | 1, v => ofRecord? 0 (items? 0 fun _ _ => none) v
  | levels + 2, v => ofRecord? (levels + 1) (items? (levels + 1) fun _ => ofValue? levels) v

/-- The deepest nesting that is read. -/
def maxLevels : Nat := 127

def ofLine? (line : List Char) : Option CompilerMessage :=
  match Text.trimStart line with
  | '{' :: _ => (JsonValue.read? line).bind (ofValue? maxLevels)
  | _ => none

end CompilerMessage

/-- The messages of a compiler and its other lines, each ended by a newline. -/
structure CompilerOutput where
  messages : List CompilerMessage
  other : String
deriving Repr, Inhabited

namespace CompilerOutput

def ofLines : List (List Char) → CompilerOutput
  | [] => ⟨[], ""⟩
  | line :: rest =>
    let output := ofLines rest
    match CompilerMessage.ofLine? line with
    | some m => { output with messages := m :: output.messages }
    | none => { output with other := String.ofList line ++ "\n" ++ output.other }

def ofString (stderr : String) : CompilerOutput :=
  ofLines (Text.lines stderr.toList)

def errors (o : CompilerOutput) : List CompilerMessage :=
  o.messages.filter (·.severity == .error)

/-- What a reader is meant to see: the rendered messages, then the other lines. -/
def rendered (o : CompilerOutput) : String :=
  String.join (o.messages.filterMap (·.rendered)) ++ o.other

end CompilerOutput

end Doctest
