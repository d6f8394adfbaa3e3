import Doctest.Toml.Scalar

/-! TOML documents. -/
namespace Doctest.TomlDocument

open Step TomlScalar

def spaces : Step Unit := do
  let _ ← run isSpace

def comment : Step Unit := do
  text ['#']
  let _ ← run isPlain

/-- The end of a line, with the blanks and the comment before it. -/
def lineEnd : Step Unit := do
  spaces
  let _ ← optional comment
  newline <|> atEnd

def isKeyChar (c : Char) : Bool :=
  c.isAlphanum || c = '-' || c = '_'

def keyPart : Step String := do
  spaces
  let part ← basicString <|> literalString <|> do
    let first ← char isKeyChar
    let rest ← run isKeyChar
    pure (first :: rest)
  spaces
  pure (String.ofList part)

/-- Keys have fewer parts than this, and values nest less deep. -/
def maxDepth : Nat := 80

/-- The parts of a dotted key: those before the last, and the last. -/
def key : Step (List String × String) := do
  let parts ← separated keyPart (text ['.'])
  match parts.getLast? with
  | some last => if parts.length < maxDepth then pure (parts.dropLast, last) else failure
  | none => failure

/-- A key and the value that `value` reads after it. -/
def pair (value : Step TomlValue) : Step (List String × String × TomlValue) := do
  let (path, key) ← key
  text ['=']
  spaces
  let v ← value
  pure (path, key, v)

/-- Blanks, comments and line ends between the items of an array. -/
def gap : Step Unit := do
  let _ ← many ((do let _ ← char isSpace) <|> newline <|> do
    comment
    newline)

def array (value : Step TomlValue) : Step TomlValue := do
  text ['[']
  let item : Step TomlValue := do
    gap
    let v ← value
    gap
    pure v
  let items ← optional (separated item (text [',']))
  if items.isSome then
    let _ ← optional (text [','])
  gap
  text [']']
  pure (.array (items.getD []))

/-- The table of key and value pairs in braces. -/
def fieldsOf? (pairs : List (List String × String × TomlValue)) : Option TomlFields :=
  pairs.foldlM (fun fields (path, key, v) => TomlFields.addDotted? key v path fields) []

def inlineTable (value : Step TomlValue) : Step TomlValue := do
  text ['{']
  let item := do
    let p ← pair value
    spaces
    pure p
  let pairs ← optional (separated item (text [',']))
  spaces
  text ['}']
  match fieldsOf? (pairs.getD []) with
  | some fields => pure (.table .braces fields)
  | none => failure

/-- A value whose arrays and tables nest at most `depth` deep. -/
def value : (depth : Nat) → Step TomlValue
  | 0 => scalarValue
  | depth + 1 => scalarValue <|> array (value depth) <|> inlineTable (value depth)

/-- What stands on a line. -/
inductive Line
  | nothing
  | header (path : List String) (key : String)
  | doubleHeader (path : List String) (key : String)
  | pair (path : List String) (key : String) (v : TomlValue)

def header : Step Line := do
  text ['[']
  let (path, last) ← key
  text [']']
  pure (.header path last)

def doubleHeader : Step Line := do
  text ['[', '[']
  let (path, last) ← key
  text [']', ']']
  pure (.doubleHeader path last)

def keyValue : Step Line := do
  let (path, last, v) ← pair (value (maxDepth - 1))
  pure (.pair path last v)

/-- A line, of which the last may lack its end. -/
def line : Step Line := do
  spaces
  let l ← doubleHeader <|> header <|> keyValue <|> pure .nothing
  lineEnd
  pure l

/-- The tables as far as they have been read, and the header under which the next pairs stand. -/
structure Reading where
  fields : TomlFields
  current : List String

def Reading.add? (r : Reading) : Line → Option Reading
  | .nothing => some r
  | .header path key => do
    let fields ← TomlFields.under? (TomlFields.openTable? key) path r.fields
    pure ⟨fields, path ++ [key]⟩
  | .doubleHeader path key => do
    let fields ← TomlFields.under? (TomlFields.openTables? key) path r.fields
    pure ⟨fields, path ++ [key]⟩
  | .pair path key v => do
    let fields ← TomlFields.under? (TomlFields.addDotted? key v path) r.current r.fields
    pure { r with fields }

/-- Reads a document. A byte order mark before it is passed over. -/
def read? (source : List Char) : Option TomlFields := do
  let source := match source with
    | '\ufeff' :: rest => rest
    | _ => source
  let (lines, rest) := repeated line source
  if rest.isEmpty then
    let r ← lines.foldlM Reading.add? ⟨[], []⟩
    pure r.fields
  else none

end Doctest.TomlDocument
