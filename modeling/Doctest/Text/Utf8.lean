/-! Bytes as UTF-8 text. Reading is strict, or puts one replacement character in place of each longest
run of bytes that begins a character without completing it. -/
namespace Doctest

abbrev Bytes := List UInt8

namespace Bytes

def ofString (s : String) : Bytes :=
  s.toUTF8.data.toList

/-- The text, if the bytes are UTF-8. -/
def toString? (bs : Bytes) : Option String :=
  String.fromUTF8? ⟨bs.toArray⟩

/-- The least and greatest second byte after a first byte, and the number of bytes after the first,
for the first bytes of characters of more than one byte. -/
def shape? (first : UInt8) : Option (UInt8 × UInt8 × Nat) :=
  if first < 0xc2 then none
  else if first ≤ 0xdf then some (0x80, 0xbf, 1)
  else if first = 0xe0 then some (0xa0, 0xbf, 2)
  else if first = 0xed then some (0x80, 0x9f, 2)
  else if first ≤ 0xef then some (0x80, 0xbf, 2)
  else if first = 0xf0 then some (0x90, 0xbf, 3)
  else if first ≤ 0xf3 then some (0x80, 0xbf, 3)
  else if first = 0xf4 then some (0x80, 0x8f, 3)
  else none

/-- The number of bytes, at most `wanted`, that continue a character, when the first of them lies
between `lo` and `hi`. -/
def continuation (lo hi : UInt8) : (wanted : Nat) → Bytes → Nat
  | 0, _ => 0
  | _, [] => 0
  | wanted + 1, b :: bs =>
    if lo ≤ b ∧ b ≤ hi then continuation 0x80 0xbf wanted bs + 1 else 0

def replacement : Char := '\ufffd'

/-- The character that six low bits of each continuation byte add to `lead`. -/
def assemble (lead : Nat) (bs : Bytes) : Char :=
  Char.ofNat (bs.foldl (fun n b => n * 64 + b.toNat % 64) lead)

def decodeLossy : Bytes → List Char
  | [] => []
  | b :: bs =>
    if b < 0x80 then Char.ofNat b.toNat :: decodeLossy bs
    else
      match shape? b with
      | none => replacement :: decodeLossy bs
      | some (lo, hi, wanted) =>
        let found := continuation lo hi wanted bs
        let c := if found = wanted then assemble (b.toNat % Nat.pow 2 (6 - wanted)) (bs.take wanted)
          else replacement
        c :: decodeLossy (bs.drop found)
termination_by bs => bs.length
decreasing_by
  all_goals
    simp only [List.length_drop, List.length_cons]
    omega

def toStringLossy (bs : Bytes) : String :=
  String.ofList (decodeLossy bs)

end Bytes

end Doctest
