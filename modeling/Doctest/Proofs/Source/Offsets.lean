import Mathlib.Data.Set.Function
import Mathlib.Order.Interval.Set.Defs
import Doctest.Proofs.Source.LineMap
import Doctest.Proofs.Text.Utf8

/-! Offsets in a source and the lines and columns that they have. A line is found by a search among the
starts of lines, and it is the one that the newline bytes before the offset tell. -/
namespace Doctest

namespace LineMap

open Text

/-- The lines and columns of a source of `size` bytes. The columns of a line count from one up to the newline that
ends it, or up to the end of the source. -/
def places (m : LineMap) (size : Nat) : Set (Nat × Nat) :=
  {place | 1 ≤ place.1 ∧ 1 ≤ place.2 ∧ ∃ start, m.starts[place.1 - 1]? = some start ∧
    start + place.2 - 1 ≤ size ∧ ∀ next ∈ m.starts[place.1]?, start + place.2 - 1 < next}

/-- An offset inside of a character has a place too. -/
example : (ofString "a\n\u00df").lineColumn 3 = (2, 2) := by
  decide

end LineMap

end Doctest
