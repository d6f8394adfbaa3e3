import Doctest.Text.Split

/-! Attributes in the info string of a code fence. -/
namespace Doctest

/-- A bare attribute has no value. -/
structure Attribute where
  name : String
  value : Option String
deriving DecidableEq, Repr

namespace Attribute

open Text

/-- The words of an info string, where `quote` is the quotation mark that is open and `word` what has
been read of a word. Blanks inside quotation marks belong to the word and the marks do not. -/
def tokens (quote : Option Char) (word : Option (List Char)) : List Char → List (List Char)
  | [] => word.toList
  | c :: cs =>
    match quote with
    | some q =>
      if c = q then tokens none word cs else tokens quote (some (word.getD [] ++ [c])) cs
    | none =>
      if c = '"' ∨ c = '\'' then tokens (some c) (some (word.getD [])) cs
      else if isBlank c then word.toList ++ tokens none none cs
      else tokens none (some (word.getD [] ++ [c])) cs

/-- A word with an equals sign is a name and a value, unless the name is empty. Any other word is a bare
attribute for each part between commas. -/
def ofToken (token : List Char) : List Attribute :=
  match splitFirst? '=' token with
  | some ([], _) => []
  | some (name, value) => [⟨String.ofList name, some (String.ofList value)⟩]
  | none =>
    (((splitOn ',' token).map trim).filter (!·.isEmpty)).map fun part => ⟨String.ofList part, none⟩

def parse (info : List Char) : List Attribute :=
  (tokens none none info).flatMap ofToken

end Attribute

end Doctest
