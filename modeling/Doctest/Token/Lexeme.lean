import Doctest.Text.Blank
import Doctest.Text.Name
import Doctest.Token.Basic

/-! The cut of a source text into lexemes. Each lexeme is the longest text of any class that stands
at its place, and the lexemes put together are the source. -/
namespace Doctest

/-- What a piece of source text was read as. A word may be a keyword and a name is none. A comment or
string that is never closed takes the rest of the text, and a stray is a character that begins
nothing. -/
inductive Lexeme.Class
  | blank | lineComment | blockComment | unclosedComment | literal | unclosedString
  | unclosedRawString | lifetime | word | name | rawName | opening (b : Bracket) | closing (b : Bracket)
  | symbol (s : Symbol) | punct | stray
deriving DecidableEq, Repr

structure Lexeme where
  cls : Lexeme.Class
  text : List Char
deriving DecidableEq, Repr

namespace Lexeme

open Text

/-- The number of characters up to the first that fails `p`. -/
def run (p : Char → Bool) (cs : List Char) : Nat :=
  (cs.takeWhile p).length

/-- Blanks between tokens; other white space is no blank in a source. -/
def isSkipped (c : Char) : Bool :=
  c = ' ' || c = '\t' || c = '\r' || c = '\n' || c = '\x0c'

def isDigit (c : Char) : Bool :=
  '0' ≤ c && c ≤ '9'

def isLetter (c : Char) : Bool :=
  ('a' ≤ c && c ≤ 'z') || ('A' ≤ c && c ≤ 'Z')

def isHexDigit (c : Char) : Bool :=
  isDigit c || ('a' ≤ c && c ≤ 'f') || ('A' ≤ c && c ≤ 'F')

/-- Letters, digits and the underscore in ASCII, of which numbers and lifetimes are made. -/
def isWordChar (c : Char) : Bool :=
  isDigit c || isLetter c || c = '_'

/-- The number of characters up to the end of a block comment that has been opened, when `depth`
comments are open inside it. -/
def commentTail? : (depth : Nat) → List Char → Option Nat
  | _, [] => none
  | depth, '/' :: '*' :: cs => (commentTail? (depth + 1) cs).map (· + 2)
  | 0, '*' :: '/' :: _ => some 2
  | depth + 1, '*' :: '/' :: cs => (commentTail? depth cs).map (· + 2)
  | depth, _ :: cs => (commentTail? depth cs).map (· + 1)

/-- The number of characters up to the end of a string whose quote has been read. -/
def stringTail? : List Char → Option Nat
  | [] => none
  | '"' :: _ => some 1
  | ['\\'] => none
  | '\\' :: _ :: cs => (stringTail? cs).map (· + 2)
  | _ :: cs => (stringTail? cs).map (· + 1)

/-- The number of characters up to the end of a raw string, which is a quote before `hashes` hash
signs. -/
def rawTail? (hashes : Nat) : List Char → Option Nat
  | [] => none
  | c :: cs =>
    if c = '"' ∧ (List.replicate hashes '#').isPrefixOf cs then some (hashes + 1)
    else (rawTail? hashes cs).map (· + 1)

/-- The number of characters up to the end of a character literal whose quote has been read. -/
def charTail? : List Char → Option Nat
  | '\\' :: 'u' :: '{' :: cs =>
    let digits := run isHexDigit cs
    if 1 ≤ digits ∧ digits ≤ 6 ∧ ['}', '\''].isPrefixOf (cs.drop digits) then some (digits + 5)
    else none
  | '\\' :: c :: '\'' :: _ => if c = '\n' then none else some 3
  | c :: '\'' :: _ => if c = '\'' ∨ c = '\\' ∨ c = '\n' then none else some 2
  | _ => none

/-- The lexeme that a quote begins, as a class and a number of characters after the quote. -/
def afterQuote (cs : List Char) : Class × Nat :=
  match charTail? cs with
  | some n => (.literal, n)
  | none =>
    match cs with
    | c :: rest =>
      if isLetter c || c = '_' then (.lifetime, run isWordChar rest + 1) else (.punct, 0)
    | [] => (.punct, 0)

def afterSlash (cs : List Char) : Class × Nat :=
  match cs with
  | '/' :: rest => (.lineComment, run (· ≠ '\n') rest + 1)
  | '*' :: rest =>
    match commentTail? 0 rest with
    | some n => (.blockComment, n + 1)
    | none => (.unclosedComment, cs.length)
  | _ => (.punct, 0)

/-- The number of characters that belong to a string that is never closed: all but a backslash at the
end that escapes nothing. -/
def unclosedString : List Char → Nat
  | [] => 0
  | ['\\'] => 0
  | '\\' :: _ :: cs => unclosedString cs + 2
  | _ :: cs => unclosedString cs + 1

/-- A quote is the mark of a string as soon as one character of a string follows it. -/
def afterDoubleQuote (cs : List Char) : Class × Nat :=
  match stringTail? cs with
  | some n => (.literal, n)
  | none =>
    match unclosedString cs with
    | 0 => (.punct, 0)
    | n => (.unclosedString, n)

/-- The raw string that the hash signs and quote at the front of `cs` open, if they do. From
`enough` hash signs on a missing quote is a fault of the string. -/
def rawString? (enough : Nat) (cs : List Char) : Option (Class × Nat) :=
  let hashes := run (· = '#') cs
  if cs[hashes]? = some '"' then
    match rawTail? hashes (cs.drop (hashes + 1)) with
    | some n => some (.literal, hashes + 1 + n)
    | none => some (.unclosedRawString, cs.length)
  else if enough ≤ hashes then some (.unclosedRawString, hashes)
  else none

/-- A word that was begun. A character right after it that begins with the byte of a name character
makes it a name, whatever it spells. -/
def word (cs : List Char) : Class × Nat :=
  let n := run isNameChar cs
  (if cs[n]?.any hasNameByte then .name else .word, n)

/-- The lexeme that a letter or underscore begins. One hash sign after `r` may begin a raw name. -/
def afterLetter (c : Char) (cs : List Char) : Class × Nat :=
  match c, cs with
  | 'b', 'r' :: rest =>
    match rawString? 1 rest with
    | some (cls, n) => (cls, n + 1)
    | none => word cs
  | 'r', _ =>
    match rawString? 2 cs with
    | some found => found
    | none =>
      match cs with
      | '#' :: first :: rest =>
        if isNameStart first then (.rawName, run isNameChar rest + 2) else word cs
      | _ => word cs
  | _, _ => word cs

def afterMark (c : Char) (cs : List Char) : Class × Nat :=
  match c, cs with
  | '{', _ => (.opening .brace, 0)
  | '}', _ => (.closing .brace, 0)
  | '(', _ => (.opening .paren, 0)
  | ')', _ => (.closing .paren, 0)
  | '[', _ => (.opening .square, 0)
  | ']', _ => (.closing .square, 0)
  | '<', _ => (.symbol .lt, 0)
  | '>', _ => (.symbol .gt, 0)
  | ';', _ => (.symbol .semi, 0)
  | ':', ':' :: _ => (.symbol .pathSep, 1)
  | ':', _ => (.symbol .colon, 0)
  | ',', _ => (.symbol .comma, 0)
  | '#', _ => (.symbol .pound, 0)
  | '!', _ => (.symbol .bang, 0)
  | '=', _ => (.symbol .eq, 0)
  | '-', '>' :: _ => (.symbol .arrow, 1)
  | _, _ => if isBlank c || isNameChar c then (.stray, 0) else (.punct, 0)

/-- The lexeme that `c` begins, as a class and the number of characters that follow `c` in it. -/
def after (c : Char) (cs : List Char) : Class × Nat :=
  if isSkipped c then (.blank, run isSkipped cs)
  else if c = '/' then afterSlash cs
  else if c = '\'' then afterQuote cs
  else if c = '"' then afterDoubleQuote cs
  else if isDigit c then (.literal, run isWordChar cs)
  else if isNameStart c then afterLetter c cs
  else afterMark c cs

def split : List Char → List Lexeme
  | [] => []
  | c :: cs =>
    let (cls, n) := after c cs
    ⟨cls, c :: cs.take n⟩ :: split (cs.drop n)
termination_by cs => cs.length
decreasing_by
  rw [List.length_drop, List.length_cons]
  omega

/-- No character is lost, moved or doubled. -/
theorem flatMap_text_split (cs : List Char) : (split cs).flatMap text = cs := by
  fun_induction split cs with
  | case1 => rfl
  | case2 c cs cls n h ih => simp [ih]

theorem text_ne_nil_of_mem_split {cs : List Char} {x : Lexeme} (h : x ∈ split cs) :
    x.text ≠ [] := by
  fun_induction split cs with
  | case1 => simp at h
  | case2 c cs cls n _ ih =>
    rcases List.mem_cons.1 h with rfl | h
    · simp
    · exact ih h

end Lexeme

end Doctest
