import Doctest.Text.Bytes

/-! Half-open ranges of bytes in a source text. -/
namespace Doctest

structure Span where
  start : Nat
  stop : Nat
deriving DecidableEq, Repr, Inhabited

namespace Span

def length (s : Span) : Nat :=
  s.stop - s.start

def isEmpty (s : Span) : Bool :=
  s.length == 0

/-- The smallest span that covers both. -/
def cover (s t : Span) : Span :=
  ⟨min s.start t.start, max s.stop t.stop⟩

/-- The text under the span, if the span lies inside the source and cuts no character. -/
def text? (s : Span) (source : String) : Option String :=
  if s.start ≤ s.stop then
    ((Text.dropBytes? s.start source.toList).bind (Text.takeBytes? s.length)).map String.ofList
  else none

theorem text?_append (as bs cs : List Char) :
    text? ⟨Text.byteLength as, Text.byteLength as + Text.byteLength bs⟩
      (String.ofList (as ++ (bs ++ cs))) = some (String.ofList bs) := by
  simp [text?, length, Text.dropBytes?_append, Text.takeBytes?_append]

end Span

end Doctest
