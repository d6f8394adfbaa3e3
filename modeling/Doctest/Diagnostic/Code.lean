/-! The codes of diagnostics, with their titles and categories. -/
namespace Doctest

/-- What a diagnostic with a code is about. -/
inductive Category
  | test | infrastructure | source
deriving DecidableEq, Repr

/-- The category as a report names it. -/
def Category.display : Category → String
  | test => "Test"
  | infrastructure => "Infrastructure"
  | source => "Source"

inductive Code
  | compileFailed | artifactNotFound | launchFailed | snippetFailed | snippetTimedOut
  | badSource | missingModule
deriving DecidableEq, Repr

namespace Code

/-- All codes in the order of their spelling. -/
def all : List Code :=
  [compileFailed, artifactNotFound, launchFailed, snippetFailed, snippetTimedOut, badSource,
    missingModule]

def spelling : Code → String
  | compileFailed => "D0001"
  | artifactNotFound => "D0002"
  | launchFailed => "D0003"
  | snippetFailed => "D0004"
  | snippetTimedOut => "D0005"
  | badSource => "D0100"
  | missingModule => "D0101"

def title : Code → String
  | compileFailed => "snippet failed to compile"
  | artifactNotFound => "compiled snippet not found"
  | launchFailed => "snippet could not be started"
  | snippetFailed => "snippet test failed"
  | snippetTimedOut => "snippet test timed out"
  | badSource => "source could not be parsed"
  | missingModule => "module file not found"

def category : Code → Category
  | compileFailed | artifactNotFound | launchFailed => .infrastructure
  | snippetFailed | snippetTimedOut => .test
  | badSource | missingModule => .source

def ofString? (s : String) : Option Code :=
  all.find? fun c => c.spelling == s

end Code

end Doctest
