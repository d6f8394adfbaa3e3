import Doctest.Shell.Command
import Doctest.Text.Step

/-! Classes of characters, and the patterns of the shell that are made of them. -/
namespace Doctest.Shell

inductive CharClass
  | any
  | oneOf (negated : Bool) (ranges : List (Char × Char))
deriving DecidableEq, Repr

namespace CharClass

def accepts : CharClass → Char → Bool
  | any, _ => true
  | oneOf negated ranges, c => ranges.any (fun (lo, hi) => lo ≤ c && c ≤ hi) != negated

def just (c : Char) : CharClass :=
  oneOf false [(c, c)]

/-- Adds the letters whose case alone is different. -/
def foldCase : CharClass → CharClass
  | any => any
  | oneOf negated ranges =>
    let letters := (List.range 128).map Char.ofNat |>.filter fun c =>
      c.isAlpha && ranges.any fun (lo, hi) => lo ≤ c && c ≤ hi
    oneOf negated (ranges ++ letters.flatMap fun c => [(c.toLower, c.toLower), (c.toUpper, c.toUpper)])

/-- The classes that have a name, by their ranges. -/
def named : List (String × List (Char × Char)) :=
  [("upper", [('A', 'Z')]), ("lower", [('a', 'z')]), ("alpha", [('A', 'Z'), ('a', 'z')]),
    ("digit", [('0', '9')]), ("alnum", [('0', '9'), ('A', 'Z'), ('a', 'z')]),
    ("space", [('\t', '\r'), (' ', ' ')]), ("blank", [('\t', '\t'), (' ', ' ')]),
    ("punct", [('!', '/'), (':', '@'), ('[', '\x60'), ('\x7b', '~')]),
    ("cntrl", [('\x00', '\x1f'), ('\x7f', '\x7f')]), ("print", [(' ', '~')]),
    ("graph", [('!', '~')]), ("xdigit", [('0', '9'), ('A', 'F'), ('a', 'f')])]

open Step

/-- The ranges of a class that is named. -/
def name : Step (List (Char × Char)) := do
  text ['[', ':']
  let letters ← run Char.isAlpha
  text [':', ']']
  StateT.lift (named.lookup (String.ofList letters))

/-- A character of a class. Where a backslash quotes, it stands for the next one. -/
def member (quotes : Bool) : Step Char := do
  (do
    text ['[', '.']
    let c ← char fun _ => true
    text ['.', ']']
    pure c) <|>
  (do
    if !quotes then failure
    text ['\\']
    char fun _ => true) <|>
  char fun _ => true

/-- A name, a range, or one character. -/
def part (quotes : Bool) : Step (List (Char × Char)) :=
  name <|>
  (do
    let lo ← member quotes
    text ['-']
    if (← peek) = some ']' then failure
    pure [(lo, ← member quotes)]) <|>
  do
    let c ← member quotes
    pure [(c, c)]

/-- A class in square brackets. A bracket that comes first in it is a character. -/
def brackets (negation : Char) (quotes : Bool) : Step CharClass := do
  text ['[']
  let negated := (← optional (text [negation])).isSome
  let first ← part quotes
  let rest ← many (do
    if (← peek) = some ']' then failure
    part quotes)
  text [']']
  pure (oneOf negated (first ++ rest.flatten))

end CharClass

/-- A character of a class, or any characters. -/
inductive PatternItem
  | one (c : CharClass)
  | anything
deriving DecidableEq, Repr

/-- A pattern of the shell for whole texts. -/
structure Pattern where
  items : List PatternItem
deriving DecidableEq, Repr

namespace Pattern

def matchesAll : List PatternItem → Text → Bool
  | [], cs => cs.isEmpty
  | .one a :: items, c :: cs => a.accepts c && matchesAll items cs
  | .one _ :: _, [] => false
  | .anything :: items, [] => matchesAll items []
  | .anything :: items, c :: cs => matchesAll items (c :: cs) || matchesAll (.anything :: items) cs
termination_by items cs => (cs.length, items.length)

def accepts (p : Pattern) (cs : Text) : Bool :=
  matchesAll p.items cs

open Step

def item : Step PatternItem :=
  (do text ['*']; pure .anything) <|>
  (do text ['?']; pure (.one .any)) <|>
  PatternItem.one <$> CharClass.brackets '!' true <|>
  (do text ['\\']; pure (.one (.just (← char fun _ => true)))) <|>
  do pure (.one (.just (← char fun _ => true)))

def ofText (cs : Text) : Pattern :=
  ⟨(repeated item cs).1⟩

/-- The only text that matches, if every character is given. -/
def literal? (p : Pattern) : Option Text :=
  p.items.mapM fun
    | .one (.oneOf false [(a, b)]) => if a = b then some a else none
    | _ => none

/-- A text as a pattern that only it matches. -/
def quote (cs : Text) : Text :=
  cs.flatMap fun c => ['\\', c]

end Pattern

end Doctest.Shell
