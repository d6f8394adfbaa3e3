import Doctest.Json.Token

/-! Reading a JSON value: the tokens one after the other, with a stack of the arrays and objects that
are open. -/
namespace Doctest

namespace JsonValue

/-- An array or object that is open, with what it holds so far, latest first. -/
inductive Frame
  | array (items : List JsonValue)
  | object (fields : List (Option String × JsonValue)) (key : Option String)

/-- What may come next: a value, a value or the end of an array, a key, a key or the end of an object,
the colon after a key, or what follows a value. -/
inductive Awaited
  | value | firstItem | key | firstKey | colon | after

def Frame.put (v : JsonValue) : Frame → Frame
  | .array items => .array (v :: items)
  | .object fields key => .object ((key, v) :: fields) key

/-- The value of the tokens, where `top` is the innermost array or object that is open, if one is, and
`outer` those around it. A value outside all of them must be the last token. -/
def ofTokens? (top : Frame) (outer : List Frame) (awaited : Awaited) :
    List JsonToken → Option JsonValue
  | [] => none
  | token :: rest =>
    let complete (v : JsonValue) (top : Frame) (outer : List Frame) :=
      ofTokens? (top.put v) outer .after rest
    let close :=
      match top, outer with
      | .array items, [] => if rest.isEmpty then some (.array items.reverse) else none
      | .object fields _, [] => if rest.isEmpty then some (.object fields.reverse) else none
      | .array items, next :: outer => complete (.array items.reverse) next outer
      | .object fields _, next :: outer => complete (.object fields.reverse) next outer
    match awaited, token, top with
    | .value, .scalar v, _ | .firstItem, .scalar v, _ => complete v top outer
    | .value, .openArray, _ | .firstItem, .openArray, _ =>
      ofTokens? (.array []) (top :: outer) .firstItem rest
    | .value, .openObject, _ | .firstItem, .openObject, _ =>
      ofTokens? (.object [] none) (top :: outer) .firstKey rest
    | .firstItem, .closeArray, _ => close
    | .firstKey, .closeObject, _ => close
    | .key, .scalar (.string key), .object fields _
    | .firstKey, .scalar (.string key), .object fields _ =>
      ofTokens? (.object fields key) outer .colon rest
    | .colon, .colon, _ => ofTokens? top outer .value rest
    | .after, .comma, .array _ => ofTokens? top outer .value rest
    | .after, .comma, .object _ _ => ofTokens? top outer .key rest
    | .after, .closeArray, .array _ => close
    | .after, .closeObject, .object _ _ => close
    | _, _, _ => none

/-- Reads a text that is one array or object, with blanks around its tokens. -/
def read? (text : List Char) : Option JsonValue :=
  match JsonToken.split? text with
  | some (.openArray :: rest) => ofTokens? (.array []) [] .firstItem rest
  | some (.openObject :: rest) => ofTokens? (.object [] none) [] .firstKey rest
  | _ => none

end JsonValue

end Doctest
