import Doctest.Text.Lines
import Doctest.Token.Basic

/-! The documentation that a comment carries, if it is a doc comment, without its marks. -/
namespace Doctest.DocText

open Text

def dropSpace : List Char → List Char
  | ' ' :: cs => cs
  | cs => cs

/-- A line comment documents what follows if it starts with exactly three slashes, and what encloses
it if it starts with two slashes and an exclamation mark. -/
def ofLineComment? (comment : List Char) : Option Token.Kind :=
  match trimReturns comment with
  | '/' :: '/' :: '/' :: '/' :: _ => none
  | '/' :: '/' :: '/' :: text => some (.outerDoc (String.ofList (dropSpace text)))
  | '/' :: '/' :: '!' :: text => some (.innerDoc (String.ofList (dropSpace text)))
  | _ => none

/-- A line of a block comment, without a leading asterisk and the blanks around the line. -/
def gutterless (line : List Char) : List Char :=
  trimEnd <|
    match trimStart line with
    | '*' :: text => dropSpace text
    | _ => dropSpace line

/-- Each line loses its gutter, and blank lines at the end are dropped. -/
def blockText (inner : List Char) : List Char :=
  let kept := ((lines inner).map gutterless).reverse.dropWhile (·.isEmpty)
  joinWith '\n' kept.reverse

/-- A complete block comment documents what follows if it starts with exactly two asterisks, and what
encloses it if it starts with an asterisk and an exclamation mark. -/
def ofBlockComment? (comment : List Char) : Option Token.Kind :=
  let text := String.ofList (blockText ((comment.drop 3).dropLast.dropLast))
  match comment with
  | ['/', '*', '*', '/'] => none
  | '/' :: '*' :: '*' :: '*' :: _ => none
  | '/' :: '*' :: '*' :: _ => some (.outerDoc text)
  | '/' :: '*' :: '!' :: _ => some (.innerDoc text)
  | _ => none

end Doctest.DocText
