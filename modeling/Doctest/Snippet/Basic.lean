import Doctest.Outline.Doc
import Doctest.Snippet.Attribute
import Doctest.Text.Bytes

/-! Fenced code blocks of a documentation text. -/
namespace Doctest

/-- A fenced block. The line is that of the opening fence. -/
structure Snippet where
  body : String
  attributes : List Attribute
  line : Nat
deriving DecidableEq, Repr

/-- An opening fence: its character, how often it stands there, the bytes before it, and the text after
it. -/
structure Fence where
  char : Char
  length : Nat
  indent : Nat
  info : List Char
deriving DecidableEq, Repr

namespace Fence

open Text

/-- A fence is at least three equal fence characters after blanks, then an info string. After backticks
the info string holds no backtick. -/
def open? (line : List Char) : Option Fence :=
  let trimmed := trimStart line
  match trimmed with
  | [] => none
  | c :: _ =>
    if c = '`' ∨ c = '~' then
      let length := (trimmed.takeWhile (· = c)).length
      let info := trim (trimmed.drop length)
      if length < 3 ∨ (c = '`' ∧ '`' ∈ info) then none
      else some ⟨c, length, byteLength line - byteLength trimmed, info⟩
    else none

/-- A line closes a block if, without blanks around it, it is the fence character alone and at least as
often as in the opening fence. -/
def closes (f : Fence) (line : List Char) : Bool :=
  let trimmed := trim line
  f.length ≤ trimmed.length && trimmed.all (· = f.char)

/-- A line of the block without its indentation, of which it loses at most that of the fence. -/
def unindent (f : Fence) (line : List Char) : List Char :=
  line.drop (min f.indent (line.takeWhile (· = ' ')).length)

end Fence

namespace Snippet

open Text

def has (s : Snippet) (name : String) : Bool :=
  s.attributes.any (·.name == name)

/-- The values of all attributes of the name, in order. -/
def values (s : Snippet) (name : String) : List String :=
  (s.attributes.filter (·.name == name)).filterMap (·.value)

def isTest (s : Snippet) : Bool :=
  s.has "test"

def isIgnored (s : Snippet) : Bool :=
  s.has "ignore"

/-- The line of the first line of the body. -/
def bodyLine (s : Snippet) : Nat :=
  s.line + 1

def lineCount (s : Snippet) : Nat :=
  (lines s.body.toList).length

/-- The fenced blocks of the lines, the first of which has the number `line`. A block that is not closed
lasts to the end. -/
def ofLines (line : Nat) : List (List Char) → List Snippet
  | [] => []
  | first :: rest =>
    match Fence.open? first with
    | none => ofLines (line + 1) rest
    | some fence =>
      let body := rest.takeWhile (!fence.closes ·)
      let after := rest.drop (body.length + 1)
      ⟨String.ofList (joinWith '\n' (body.map fence.unindent)), Attribute.parse fence.info, line⟩ ::
        ofLines (line + 1 + body.length + 1) after
termination_by ls => ls.length
decreasing_by
  all_goals
    simp only [List.length_drop, List.length_cons]
    omega

/-- The fenced blocks of a text, tests or not. -/
def ofText (text : String) (firstLine : Nat) : List Snippet :=
  ofLines firstLine (lines text.toList)

def ofComment (doc : DocComment) : List Snippet :=
  ofText doc.text doc.line

end Snippet

end Doctest
