import Doctest.Text.Split
import Doctest.Text.Utf8

/-! Paths of files: bytes with a slash between the parts, kept as they were written. -/
namespace Doctest

structure Path where
  bytes : Bytes
deriving DecidableEq, Repr, Inhabited

namespace Path

def slash : UInt8 := 0x2f

def dot : UInt8 := 0x2e

def ofString (s : String) : Path :=
  ⟨Bytes.ofString s⟩

/-- Bytes that are not UTF-8 are shown as replacement characters. -/
def display (p : Path) : String :=
  p.bytes.toStringLossy

def isEmpty (p : Path) : Bool :=
  p.bytes.isEmpty

def isAbsolute (p : Path) : Bool :=
  p.bytes.head? == some slash

/-- The path of `q` seen from `p`. A slash is put between them where `p` lacks one. -/
def join (p q : Path) : Path :=
  if q.isAbsolute then q
  else if p.isEmpty || p.bytes.getLast? == some slash then ⟨p.bytes ++ q.bytes⟩
  else ⟨p.bytes ++ slash :: q.bytes⟩

/-- What a path begins with: the root, or the single dot of a relative path. -/
def lead (p : Path) : Bytes :=
  match p.bytes with
  | b :: rest =>
    if b = slash then [slash]
    else if b = dot ∧ (rest.head?.all (· == slash)) then [dot]
    else []
  | [] => []

/-- The parts after the lead. -/
def parts (p : Path) : List Bytes :=
  Text.splitOn slash (p.bytes.drop p.lead.length)

/-- An empty part names nothing, and a single dot neither. -/
def isName (part : Bytes) : Bool :=
  !part.isEmpty && part != [dot]

def names (p : Path) : List Bytes :=
  p.parts.filter isName

/-- The last name, unless that leads upwards. -/
def fileName? (p : Path) : Option Bytes :=
  p.names.getLast?.filter (· != [dot, dot])

/-- The last name without its extension. A dot at the front begins no extension. -/
def stem? (p : Path) : Option Bytes :=
  p.fileName?.map fun name =>
    match Text.splitFirst? dot name.reverse with
    | some (_, before) => if before.isEmpty then name else before.reverse
    | none => name

/-- Whether two paths are alike but for slashes and dots that name nothing. -/
def isSame (p q : Path) : Bool :=
  p.lead == q.lead && p.names == q.names

/-- The path without its last name and what names nothing before it. The root has no parent. -/
def parent? (p : Path) : Option Path :=
  match p.parts.reverse.dropWhile (!isName ·) with
  | _ :: before =>
    some ⟨p.lead ++ Text.joinWith slash (before.dropWhile (!isName ·)).reverse⟩
  | [] => if p.lead = [dot] then some ⟨[]⟩ else none

theorem length_lead_le (p : Path) : p.lead.length ≤ p.bytes.length := by
  unfold lead
  split
  · next h =>
    rw [h]
    split
    · simp
    · split <;> simp
  · simp

theorem length_parent?_lt {p q : Path} (h : p.parent? = some q) :
    q.bytes.length < p.bytes.length := by
  have hl := p.length_lead_le
  unfold parent? at h
  split at h
  · next name before hd =>
    obtain rfl := Option.some.inj h
    have hname : 0 < name.length := by
      have := List.head?_dropWhile_not (!isName ·) p.parts.reverse
      simp only [hd, List.head?_cons] at this
      rw [List.length_pos_iff]
      intro hn
      simp [hn, isName] at this
    have hne : p.parts ≠ [] := by
      intro hn
      simp [hn] at hd
    have hparts : Text.lengthWithSeparators (name :: before) ≤
        Text.lengthWithSeparators p.parts := by
      rw [← hd, ← Text.lengthWithSeparators_reverse p.parts]
      exact Text.lengthWithSeparators_dropWhile_le _ _
    have hbefore := Text.lengthWithSeparators_dropWhile_le (!isName ·) before
    have hjoined := Text.length_joinWith slash hne
    rw [parts, Text.joinWith_splitOn, List.length_drop, ← parts] at hjoined
    have hq := Text.length_joinWith_le slash (before.dropWhile (!isName ·)).reverse
    rw [Text.lengthWithSeparators_reverse] at hq
    have hq := Nat.le_trans hq hbefore
    rw [Text.lengthWithSeparators_cons] at hparts
    rw [List.length_append]
    omega
  · split at h
    · next hlead =>
      obtain rfl := Option.some.inj h
      rw [hlead] at hl
      exact hl
    · simp at h

/-- The path and what it is in, outwards. -/
def ancestors (p : Path) : List Path :=
  match _h : p.parent? with
  | some q => p :: q.ancestors
  | none => [p]
termination_by p.bytes.length
decreasing_by exact length_parent?_lt _h

end Path

end Doctest
