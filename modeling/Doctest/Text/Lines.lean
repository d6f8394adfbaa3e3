import Doctest.Text.Split

/-! The lines of a text, with carriage returns as part of the line end. -/
namespace Doctest.Text

/-- Removes one carriage return at the end. -/
def dropReturn (cs : List Char) : List Char :=
  if cs.getLast? = some '\r' then cs.dropLast else cs

/-- A line ends with a newline, which may follow a carriage return. The text after the last newline
is a line of its own, with its carriage returns, unless it is empty. -/
def lines (cs : List Char) : List (List Char) :=
  let parts := splitOn '\n' cs
  parts.dropLast.map dropReturn ++ parts.getLast?.toList.filter (!·.isEmpty)

/-- Removes all carriage returns at the end. -/
def trimReturns (cs : List Char) : List Char :=
  dropEndWhile (· = '\r') cs

theorem length_lines_le (cs : List Char) : (lines cs).length ≤ cs.count '\n' + 1 := by
  have h := length_splitWhere (· = '\n') cs
  rw [← splitOn] at h
  have hf : (((splitOn '\n' cs).getLast?.toList).filter (!·.isEmpty)).length ≤ 1 :=
    Nat.le_trans (List.length_filter_le _ _) (by cases (splitOn '\n' cs).getLast? <;> simp)
  have hc : cs.countP (· = '\n') = cs.count '\n' := by
    rfl
  simp only [lines, List.length_append, List.length_map, List.length_dropLast]
  omega

end Doctest.Text
