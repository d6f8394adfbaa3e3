import Doctest.Files.Tree
import Doctest.Shell.Command
import Doctest.Text.Octets
import Doctest.Text.Split

/-! Texts that programs read and write, and what is told by their words. -/
namespace Doctest.Shell

/-- What can be read: a text and, unless it is empty, a text that follows again and again. -/
structure Source where
  text : Text
  cycle : Text
deriving DecidableEq, Repr, Inhabited

namespace Source

def empty : Source :=
  ⟨[], []⟩

def ofText (cs : Text) : Source :=
  ⟨cs, []⟩

/-- What can be read from a device. -/
def ofDevice (d : Device) : Source :=
  ⟨[], (d.gives.map fun b => Char.ofNat b.toNat).toList⟩

def isEndless (s : Source) : Bool :=
  !s.cycle.isEmpty

/-- The whole text, if it has an end. -/
def text? (s : Source) : Option Text :=
  if s.isEndless then none else some s.text

/-- The text with the cycle after it so many times. -/
def unroll (s : Source) (n : Nat) : Text :=
  if s.isEndless then s.text ++ (List.replicate n s.cycle).flatten else s.text

def append (a b : Source) : Source :=
  if a.isEndless then a else ⟨a.text ++ b.text, b.cycle⟩

def map (f : Char → Option Char) (s : Source) : Source :=
  ⟨s.text.filterMap f, s.cycle.filterMap f⟩

end Source

def pathOf (t : Text) : Path :=
  ⟨Octets.toBytes t⟩

def textOf (s : String) : Text :=
  Octets.ofBytes (Bytes.ofString s)

/-- The lines of a text without their newlines. -/
def linesOf (cs : Text) : List Text :=
  let parts := Doctest.Text.splitOn '\n' cs
  if parts.getLast? = some [] then parts.dropLast else parts

def unlinesOf (lines : List Text) : Text :=
  lines.flatMap (· ++ ['\n'])

/-- Whether two texts are in the order of their bytes. -/
def inOrder (a b : Text) : Bool :=
  !decide (b < a)

def digits (n : Nat) : Text :=
  (toString n).toList

def natOf? (cs : Text) : Option Nat :=
  if cs.isEmpty || cs.any (!·.isDigit) then none
  else some (cs.foldl (fun n c => n * 10 + (c.toNat - 0x30)) 0)

end Doctest.Shell
