import Doctest.Source.Span

/-! Tokens of Rust source, as far apart as locating items and their documentation needs. -/
namespace Doctest

/-- Words that start or qualify an item. -/
inductive Keyword
  | modKw | fnKw | structKw | enumKw | unionKw | traitKw | implKw | constKw | staticKw | typeKw
  | useKw | externKw | crateKw | pubKw | unsafeKw | asyncKw | forKw | whereKw | macroRulesKw
deriving DecidableEq, Repr

namespace Keyword

def all : List Keyword :=
  [modKw, fnKw, structKw, enumKw, unionKw, traitKw, implKw, constKw, staticKw, typeKw, useKw,
    externKw, crateKw, pubKw, unsafeKw, asyncKw, forKw, whereKw, macroRulesKw]

def spelling : Keyword → String
  | modKw => "mod"
  | fnKw => "fn"
  | structKw => "struct"
  | enumKw => "enum"
  | unionKw => "union"
  | traitKw => "trait"
  | implKw => "impl"
  | constKw => "const"
  | staticKw => "static"
  | typeKw => "type"
  | useKw => "use"
  | externKw => "extern"
  | crateKw => "crate"
  | pubKw => "pub"
  | unsafeKw => "unsafe"
  | asyncKw => "async"
  | forKw => "for"
  | whereKw => "where"
  | macroRulesKw => "macro_rules"

def ofString? (word : String) : Option Keyword :=
  all.find? fun k => k.spelling == word

theorem mem_all (k : Keyword) : k ∈ all := by
  cases k <;> decide

end Keyword

inductive Bracket
  | brace | paren | square
deriving DecidableEq, Repr

namespace Bracket

def opener : Bracket → Char
  | brace => '{'
  | paren => '('
  | square => '['

def closer : Bracket → Char
  | brace => '}'
  | paren => ')'
  | square => ']'

end Bracket

/-- Punctuation that an item header is read by. -/
inductive Symbol
  | lt | gt | semi | colon | pathSep | comma | pound | bang | eq | arrow
deriving DecidableEq, Repr

def Symbol.spelling : Symbol → String
  | lt => "<"
  | gt => ">"
  | semi => ";"
  | colon => ":"
  | pathSep => "::"
  | comma => ","
  | pound => "#"
  | bang => "!"
  | eq => "="
  | arrow => "->"

namespace Token

/-- Doc comments hold their text without the comment marks, names lack a raw marker, and the text of
a literal is not kept. -/
inductive Kind
  | outerDoc (text : String)
  | innerDoc (text : String)
  | name (text : String)
  | literal
  | lifetime
  | keyword (word : Keyword)
  | opening (bracket : Bracket)
  | closing (bracket : Bracket)
  | symbol (mark : Symbol)
  | punct (char : Char)
  | eof
deriving DecidableEq, Repr

def quoted (s : String) : String :=
  "'" ++ s ++ "'"

/-- How a message names a token. -/
def Kind.describe : Kind → String
  | .outerDoc _ => "a doc comment"
  | .innerDoc _ => "an inner doc comment"
  | .name _ => "a name"
  | .literal => "a literal"
  | .lifetime => "a lifetime"
  | .keyword k => quoted k.spelling
  | .opening b => quoted (String.singleton b.opener)
  | .closing b => quoted (String.singleton b.closer)
  | .symbol s => quoted s.spelling
  | .punct _ => "punctuation"
  | .eof => "end of file"

end Token

structure Token where
  kind : Token.Kind
  span : Span
deriving DecidableEq, Repr

end Doctest
