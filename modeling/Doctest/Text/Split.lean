import Doctest.Text.Blank
import Doctest.Text.Total

/-! Cutting text into parts at separators, and joining parts. Text is a list of characters or of
bytes. -/
namespace Doctest.Text

variable {α : Type}

/-- The parts between the elements that satisfy `p`; always one more than there are such. -/
def splitWhere (p : α → Bool) : List α → List (List α)
  | [] => [[]]
  | c :: cs =>
    if p c then [] :: splitWhere p cs
    else
      match splitWhere p cs with
      | [] => [[c]]
      | part :: parts => (c :: part) :: parts

def splitOn [DecidableEq α] (sep : α) (cs : List α) : List (List α) :=
  splitWhere (· = sep) cs

/-- The parts with the separator between them. -/
def joinWith (sep : α) (parts : List (List α)) : List α :=
  [sep].intercalate parts

/-- The maximal runs of characters that are not blank. -/
def words (cs : List Char) : List (List Char) :=
  (splitWhere isBlank cs).filter (!·.isEmpty)

/-- Every run of blanks becomes one space, and those at the ends vanish. -/
def collapse (cs : List Char) : List Char :=
  joinWith ' ' (words cs)

/-- The text before and after the first element that equals `sep`. -/
def splitFirst? [DecidableEq α] (sep : α) : List α → Option (List α × List α)
  | [] => none
  | c :: cs =>
    if c = sep then some ([], cs)
    else (splitFirst? sep cs).map fun (before, after) => (c :: before, after)

theorem splitWhere_ne_nil (p : α → Bool) (cs : List α) : splitWhere p cs ≠ [] := by
  cases cs with
  | nil => simp [splitWhere]
  | cons c cs =>
    simp only [splitWhere]
    split
    · simp
    · split <;> simp

theorem length_splitWhere (p : α → Bool) (cs : List α) :
    (splitWhere p cs).length = cs.countP p + 1 := by
  induction cs with
  | nil => rfl
  | cons c cs ih =>
    simp only [splitWhere]
    by_cases h : p c
    · simp [h, ih]
    · cases hs : splitWhere p cs with
      | nil => exact absurd hs (splitWhere_ne_nil p cs)
      | cons part parts => simp_all

theorem joinWith_splitOn [DecidableEq α] (sep : α) (cs : List α) : joinWith sep (splitOn sep cs) = cs := by
  induction cs with
  | nil => rfl
  | cons c cs ih =>
    rw [splitOn] at ih ⊢
    simp only [splitWhere]
    cases hs : splitWhere (· = sep) cs with
    | nil => exact absurd hs (splitWhere_ne_nil _ cs)
    | cons part parts =>
      rw [hs] at ih
      by_cases h : c = sep
      · subst h
        simp only [decide_true, if_true, joinWith, List.intercalate] at ih ⊢
        simp [List.intersperse, ih]
      · cases parts with
        | nil => simp_all [joinWith, List.intercalate]
        | cons p ps =>
          simp only [h, decide_false, Bool.false_eq_true, if_false, joinWith,
            List.intercalate] at ih ⊢
          simp_all [List.intersperse]

/-- The length of the parts with a separator after each. -/
def lengthWithSeparators (parts : List (List α)) : Nat :=
  total (parts.map fun part => part.length + 1)

@[simp]
theorem lengthWithSeparators_cons (part : List α) (parts : List (List α)) :
    lengthWithSeparators (part :: parts) = part.length + 1 + lengthWithSeparators parts := rfl

@[simp]
theorem lengthWithSeparators_reverse (ps : List (List α)) :
    lengthWithSeparators ps.reverse = lengthWithSeparators ps := by
  simp [lengthWithSeparators]

theorem length_joinWith (sep : α) {parts : List (List α)} (h : parts ≠ []) :
    (joinWith sep parts).length + 1 = lengthWithSeparators parts := by
  induction parts with
  | nil => contradiction
  | cons part parts ih =>
    cases parts with
    | nil => simp [joinWith, List.intercalate, lengthWithSeparators]
    | cons p ps =>
      have := ih (by simp)
      simp only [joinWith, List.intercalate, lengthWithSeparators_cons] at this ⊢
      simp only [List.intersperse_cons_cons, List.flatten_cons, List.length_append,
        List.length_singleton] at this ⊢
      omega

theorem length_joinWith_le (sep : α) (parts : List (List α)) :
    (joinWith sep parts).length ≤ lengthWithSeparators parts := by
  cases parts with
  | nil => simp [joinWith, List.intercalate]
  | cons part parts =>
    have := length_joinWith sep (List.cons_ne_nil part parts)
    omega

theorem lengthWithSeparators_dropWhile_le (p : List α → Bool) (parts : List (List α)) :
    lengthWithSeparators (parts.dropWhile p) ≤ lengthWithSeparators parts := by
  induction parts with
  | nil => simp
  | cons part parts ih =>
    rw [List.dropWhile_cons]
    split <;> simp only [lengthWithSeparators_cons] <;> omega

end Doctest.Text
