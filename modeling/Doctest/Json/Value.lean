import Doctest.Text.Split

/-! JSON values and their indented text. -/
namespace Doctest

/-- Numbers other than the natural ones are kept as they are written. -/
inductive JsonNumber
  | natural (n : Nat)
  | other (literal : String)
deriving DecidableEq, Repr

/-- Keys stand in the order of the text, and a key may stand there twice. A string or key that holds
half of a surrogate pair alone has no text. -/
inductive JsonValue
  | null
  | bool (b : Bool)
  | number (n : JsonNumber)
  | string (text : Option String)
  | array (items : List JsonValue)
  | object (fields : List (Option String × JsonValue))
deriving Repr, Inhabited

namespace JsonValue

def ofString (s : String) : JsonValue :=
  .string (some s)

def ofNat (n : Nat) : JsonValue :=
  .number (.natural n)

def ofFields (fields : List (String × JsonValue)) : JsonValue :=
  .object (fields.map fun (key, value) => (some key, value))

def hexDigit (n : Nat) : Char :=
  if n < 10 then Char.ofNat (0x30 + n) else Char.ofNat (0x57 + n)

/-- A character inside quotes. Quotes, backslashes and control characters are escaped. -/
def escapeChar (c : Char) : List Char :=
  match c with
  | '"' => ['\\', '"']
  | '\\' => ['\\', '\\']
  | '\x08' => ['\\', 'b']
  | '\t' => ['\\', 't']
  | '\n' => ['\\', 'n']
  | '\x0c' => ['\\', 'f']
  | '\r' => ['\\', 'r']
  | c =>
    if c.toNat < 0x20 then
      ['\\', 'u', '0', '0', hexDigit (c.toNat / 16), hexDigit (c.toNat % 16)]
    else [c]

def quote (s : List Char) : List Char :=
  '"' :: s.flatMap escapeChar ++ ['"']

/-- A text that no string has is written as half of a surrogate pair. -/
def quoteText : Option String → List Char
  | some s => quote s.toList
  | none => "\"\\ud800\"".toList

def numberText : JsonNumber → List Char
  | .natural n => (toString n).toList
  | .other literal => literal.toList

def newline (depth : Nat) : List Char :=
  '\n' :: List.replicate (2 * depth) ' '

/-- Parts on lines of their own between brackets, or the brackets alone. -/
def block (opener closer : Char) (depth : Nat) (parts : List (List Char)) : List Char :=
  match parts with
  | [] => [opener, closer]
  | first :: rest =>
    opener :: newline (depth + 1) ++ first ++
      rest.flatMap (fun part => ',' :: newline (depth + 1) ++ part) ++ newline depth ++ [closer]

mutual

/-- The text of a value that stands `depth` levels deep, indented by two spaces a level. -/
def indented (depth : Nat) : JsonValue → List Char
  | .null => "null".toList
  | .bool b => (toString b).toList
  | .number n => numberText n
  | .string text => quoteText text
  | .array items => block '[' ']' depth (indentedItems (depth + 1) items)
  | .object fields => block '{' '}' depth (indentedFields (depth + 1) fields)

def indentedItems (depth : Nat) : List JsonValue → List (List Char)
  | [] => []
  | v :: vs => indented depth v :: indentedItems depth vs

def indentedFields (depth : Nat) : List (Option String × JsonValue) → List (List Char)
  | [] => []
  | (key, v) :: rest =>
    (quoteText key ++ [':', ' '] ++ indented depth v) :: indentedFields depth rest

end

def pretty (v : JsonValue) : String :=
  String.ofList (indented 0 v)

end JsonValue

end Doctest
