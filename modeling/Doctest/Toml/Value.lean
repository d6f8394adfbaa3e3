/-! TOML values, and the rules by which the lines of a document add to its tables. -/
namespace Doctest

/-- How a table came to be: by a header of its own, by a header of a table inside it, by a dotted key,
or as a value in braces. -/
inductive TomlOrigin
  | header | implied | dotted | braces
deriving DecidableEq, Repr

/-- Numbers, dates and truth values are not kept apart further than documents are read for. -/
inductive TomlValue
  | text (s : String)
  | moment
  | other
  | array (items : List TomlValue)
  | table (origin : TomlOrigin) (fields : List (String × TomlValue))
  /-- Tables that headers in double brackets make, in order. -/
  | tables (items : List (List (String × TomlValue)))
deriving Repr, Inhabited

abbrev TomlFields := List (String × TomlValue)

namespace TomlFields

/-- Puts a value under a key, in place of the one that is there. -/
def put (fields : TomlFields) (key : String) (v : TomlValue) : TomlFields :=
  fields.filter (·.1 != key) ++ [(key, v)]

/-- Adds a value under a new key. -/
def add? (fields : TomlFields) (key : String) (v : TomlValue) : Option TomlFields :=
  if fields.any (·.1 == key) then none else some (fields.put key v)

/-- Adds a value under a dotted key. Its tables are made where they are absent, and only such a table
takes the value. -/
def addDotted? (key : String) (v : TomlValue) : List String → TomlFields → Option TomlFields
  | [], fields => fields.add? key v
  | part :: rest, fields =>
    match fields.lookup part with
    | none => do
      let sub ← addDotted? key v rest []
      pure (fields.put part (.table .dotted sub))
    | some (.table .dotted sub) => do
      let sub ← addDotted? key v rest sub
      pure (fields.put part (.table .dotted sub))
    | some (.table .implied sub) =>
      if rest.isEmpty then none
      else do
        let sub ← addDotted? key v rest sub
        pure (fields.put part (.table .implied sub))
    | some (.tables items) =>
      if rest.isEmpty then none
      else do
        let last ← items.getLast?
        let last ← addDotted? key v rest last
        pure (fields.put part (.tables (items.dropLast ++ [last])))
    | some _ => none

/-- Changes the table that the parts of a header lead to, through the last of the tables in double
brackets. Absent tables are implied. -/
def under? (change : TomlFields → Option TomlFields) : List String → TomlFields → Option TomlFields
  | [], fields => change fields
  | part :: rest, fields =>
    match fields.lookup part with
    | none => do
      let sub ← under? change rest []
      pure (fields.put part (.table .implied sub))
    | some (.table .braces _) => none
    | some (.table origin sub) => do
      let sub ← under? change rest sub
      pure (fields.put part (.table origin sub))
    | some (.tables items) => do
      let last ← items.getLast?
      let last ← under? change rest last
      pure (fields.put part (.tables (items.dropLast ++ [last])))
    | some _ => none

/-- Opens the table of a header, which may have been implied but not made before. -/
def openTable? (key : String) (fields : TomlFields) : Option TomlFields :=
  match fields.lookup key with
  | none => some (fields.put key (.table .header []))
  | some (.table .implied sub) => some (fields.put key (.table .header sub))
  | some _ => none

/-- Opens one more table of a header in double brackets. -/
def openTables? (key : String) (fields : TomlFields) : Option TomlFields :=
  match fields.lookup key with
  | none => some (fields.put key (.tables [[]]))
  | some (.tables items) => some (fields.put key (.tables (items ++ [[]])))
  | some _ => none

end TomlFields

end Doctest
