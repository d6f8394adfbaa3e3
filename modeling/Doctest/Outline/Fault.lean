import Doctest.Token.Basic

/-! Faults in the items of a source file, with their messages and hints. -/
namespace Doctest

inductive SyntaxFault.Cause
  | expectedName (found : Token.Kind)
  | expectedModuleBody (found : Token.Kind)
  | unclosedBody
  | unmatchedBrace
deriving DecidableEq, Repr

structure SyntaxFault where
  cause : SyntaxFault.Cause
  span : Span
deriving DecidableEq, Repr

namespace SyntaxFault

def expected (what : String) (found : Token.Kind) : String :=
  "Expected " ++ what ++ ", found " ++ found.describe

def message (f : SyntaxFault) : String :=
  match f.cause with
  | .expectedName found => expected "a name" found
  | .expectedModuleBody found => expected "'\x7b' or ';'" found
  | .unclosedBody => expected "'\x7d'" .eof
  | .unmatchedBrace => "Unmatched '\x7d'"

def hint? (f : SyntaxFault) : Option String :=
  match f.cause with
  | .expectedName .literal => some "names can't start with a number"
  | .expectedName (.opening .brace) => some "the item is missing its name"
  | .expectedName _ => some "names start with a letter or '_'"
  | .expectedModuleBody _ => some "syntax: mod name; or mod name \x7b ... \x7d"
  | .unclosedBody => some "every '\x7b' needs a matching '\x7d'"
  | .unmatchedBrace => some "remove the extra '\x7d' or add the missing '\x7b'"

end SyntaxFault

end Doctest
