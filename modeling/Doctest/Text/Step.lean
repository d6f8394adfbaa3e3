/-! Reading a text from the front, one thing after another. -/
namespace Doctest

/-- Reads something at the front of a text and leaves the rest, or fails and leaves everything. -/
abbrev Step : Type → Type :=
  StateT (List Char) Option

namespace Step

variable {α : Type}

/-- One character that satisfies `p`. -/
def char (p : Char → Bool) : Step Char := fun cs =>
  match cs with
  | c :: rest => if p c then some (c, rest) else none
  | [] => none

/-- The given text. -/
def text (w : List Char) : Step Unit := fun cs =>
  if w.isPrefixOf cs then some ((), cs.drop w.length) else none

/-- The longest run of characters that satisfy `p`, which may be empty. -/
def run (p : Char → Bool) : Step (List Char) := fun cs =>
  some (cs.takeWhile p, cs.dropWhile p)

/-- Succeeds at the end of the text only. -/
def atEnd : Step Unit := fun cs =>
  if cs.isEmpty then some ((), cs) else none

/-- The next character, which is not read. -/
def peek : Step (Option Char) := fun cs =>
  some (cs.head?, cs)

/-- Repeats a step for as long as it succeeds and reads something. -/
def repeated (step : Step α) (cs : List Char) : List α × List Char :=
  match step cs with
  | some (a, rest) =>
    if rest.length < cs.length then
      let (as, rest) := repeated step rest
      (a :: as, rest)
    else ([], cs)
  | none => ([], cs)
termination_by cs.length

def many (step : Step α) : Step (List α) := fun cs =>
  some (repeated step cs)

/-- Exactly `n` things. -/
def exactly (step : Step α) : Nat → Step (List α)
  | 0 => pure []
  | n + 1 => do
    let a ← step
    let as ← exactly step n
    pure (a :: as)

/-- One or more things with a separator between them. -/
def separated {β : Type} (step : Step α) (separator : Step β) : Step (List α) := do
  let first ← step
  let rest ← many (do
    let _ ← separator
    step)
  pure (first :: rest)

end Step

end Doctest
