/-! Text with colours for a terminal. -/
namespace Doctest

inductive Color
  | red | green | yellow | blue | cyan
deriving DecidableEq, Repr

def Color.code : Color → String
  | red => "31"
  | green => "32"
  | yellow => "33"
  | blue => "34"
  | cyan => "36"

inductive Weight
  | normal | bold | dimmed
deriving DecidableEq, Repr

def Weight.codes : Weight → List String
  | normal => []
  | bold => ["1"]
  | dimmed => ["2"]

structure Style where
  weight : Weight
  color : Option Color
deriving DecidableEq, Repr

namespace Style

/-- The sequence that switches a style on; the weight comes before the colour. -/
def sequence (s : Style) : List Char :=
  "\x1b[".toList ++ (";".intercalate (s.weight.codes ++ (s.color.map Color.code).toList)).toList ++
    ['m']

/-- The sequence that switches all styles off. -/
def reset : List Char :=
  "\x1b[0m".toList

/-- The text with the style switched on again after each reset inside it. -/
def reopen (s : Style) : List Char → List Char
  | '\x1b' :: '[' :: '0' :: 'm' :: rest => reset ++ s.sequence ++ s.reopen rest
  | c :: rest => c :: s.reopen rest
  | [] => []

end Style

/-- A text, or a text in a style, which is filled up with blanks on the left to `width`. -/
inductive Segment
  | plain (text : String)
  | styled (style : Style) (width : Nat) (text : String)
deriving DecidableEq, Repr

namespace Segment

def padLeft (width : Nat) (cs : List Char) : List Char :=
  List.replicate (width - cs.length) ' ' ++ cs

def render (color : Bool) : Segment → List Char
  | plain text => text.toList
  | styled style width text =>
    if color then style.sequence ++ padLeft width (style.reopen text.toList) ++ Style.reset
    else padLeft width text.toList

def bold (text : String) : Segment :=
  styled ⟨.bold, none⟩ 0 text

def dimmed (text : String) : Segment :=
  styled ⟨.dimmed, none⟩ 0 text

def colored (color : Color) (text : String) : Segment :=
  styled ⟨.normal, some color⟩ 0 text

def boldColored (color : Color) (text : String) : Segment :=
  styled ⟨.bold, some color⟩ 0 text

end Segment

/-- A line of segments, ended by a newline. -/
def renderLine (color : Bool) (line : List Segment) : List Char :=
  line.flatMap (·.render color) ++ ['\n']

def renderLines (color : Bool) (lines : List (List Segment)) : String :=
  String.ofList (lines.flatMap (renderLine color))

end Doctest
