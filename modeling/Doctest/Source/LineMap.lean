import Doctest.Source.Span
import Doctest.Text.Lines

/-! Lines of a source text, numbered from one, and their places in bytes. -/
namespace Doctest

/-- The byte offsets at which lines start, in order. -/
structure LineMap where
  starts : List Nat
deriving DecidableEq, Repr

namespace LineMap

/-- The offsets just after each newline of a text that begins at `offset`. -/
def startsAfter (offset : Nat) : List Char → List Nat
  | [] => []
  | c :: cs =>
    let next := offset + c.utf8Size
    if c = '\n' then next :: startsAfter next cs else startsAfter next cs

def ofString (source : String) : LineMap :=
  ⟨0 :: startsAfter 0 source.toList⟩

def lineCount (m : LineMap) : Nat :=
  m.starts.length

/-- The line that contains the byte at `offset`. A newline belongs to the line that it ends. -/
def lineOf (m : LineMap) (offset : Nat) : Nat :=
  max 1 (m.starts.countP (· ≤ offset))

/-- Line and column, where the column counts bytes from one in 32 bits. -/
def lineColumn (m : LineMap) (offset : Nat) : Nat × Nat :=
  let line := m.lineOf offset
  (line, (offset - m.starts.getD (line - 1) 0 + 1) % UInt32.size)

/-- The text of a line without its end. -/
def lineText? (m : LineMap) (source : String) (line : Nat) : Option String :=
  if line = 0 then none
  else do
    let start ← m.starts[line - 1]?
    let stop := match m.starts[line]? with
      | some next => next - 1
      | none => Text.byteLength source.toList
    let text ← (Span.mk start stop).text? source
    pure (String.ofList (Text.trimReturns text.toList))

theorem length_startsAfter (offset : Nat) (cs : List Char) :
    (startsAfter offset cs).length = cs.count '\n' := by
  induction cs generalizing offset with
  | nil => rfl
  | cons c cs ih =>
    simp only [startsAfter]
    by_cases h : c = '\n' <;> simp [h, ih]

end LineMap

end Doctest
