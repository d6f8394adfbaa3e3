import Doctest.Outline.Mark
import Doctest.Token.Lexer

/-! The elements of a source file, put into an outline below an element that is there already. -/
namespace Doctest.Outline

/-- A module that is declared here and whose items are in another file. -/
structure OutsideModule where
  id : Nat
  name : String
  /-- The names of the modules of this file that enclose the declaration, outermost first. -/
  inlinePath : List String
  /-- The place of the name. -/
  span : Span
deriving DecidableEq, Repr

/-- An element that has begun and not yet ended. -/
structure Frame where
  id : Nat
  kind : Element.Kind
  name : String
deriving DecidableEq, Repr

/-- The outline as far as it has been read, with the elements that are open, innermost first. -/
structure Cursor where
  outline : Outline
  base : Nat
  frames : List Frame
  modules : List OutsideModule
  faults : List SyntaxFault
deriving DecidableEq, Repr

namespace Cursor

/-- The innermost element that is open. -/
def here (c : Cursor) : Nat :=
  (c.frames.head?.map (·.id)).getD c.base

def moduleNames (frames : List Frame) : List String :=
  ((frames.filter (·.kind == .module)).map (·.name)).reverse

def attach (c : Cursor) (id : Nat) (file : Option Path) (doc : Option DocRun) : Cursor :=
  match doc with
  | some run => { c with outline := c.outline.attachDoc id (run.toComment file) }
  | none => c

def step (file : Option Path) (c : Cursor) : Mark → Cursor
  | .enter kind name doc =>
    let (id, outline) := c.outline.addChild c.here kind name
    { c with outline, frames := ⟨id, kind, name⟩ :: c.frames }.attach id file doc
  | .leave => { c with frames := c.frames.tail }
  | .doc run => c.attach c.here file (some run)
  | .outside span =>
    match c.frames with
    | [] => c
    | frame :: above =>
      { c with modules := c.modules ++ [⟨frame.id, frame.name, moduleNames above, span⟩] }
  | .fault f => { c with faults := c.faults ++ [f] }

end Cursor

/-- What reading a file gave: the outline with the file's elements in it, the modules that other files
hold, and the faults, both in the order of the source. -/
structure Reading where
  outline : Outline
  modules : List OutsideModule
  faults : List SyntaxFault
deriving DecidableEq, Repr

/-- Reads the tokens of a source into the outline, as children of `parent`. -/
def readTokens (t : Outline) (parent : Nat) (file : Option Path) (source : String)
    (tokens : List Token) : Reading :=
  let marks := Mark.ofTokens source (.ofString source) 0 none 0 tokens
  let c := marks.foldl (Cursor.step file) ⟨t, parent, [], [], []⟩
  ⟨c.outline, c.modules, c.faults⟩

/-- Reads a source text into the outline. Faults of its tokens do not stop the reading. -/
def readSource (t : Outline) (parent : Nat) (file : Option Path) (source : String) : Reading :=
  t.readTokens parent file source (Lexed.ofString source).tokens

/-- The outline of one source text below a crate of the given name. -/
def ofSource (crateName : String) (file : Option Path) (source : String) : Reading :=
  let (root, t) := empty.addRoot .crate crateName
  t.readSource root file source

end Doctest.Outline
