import Doctest.Text.Utf8

/-! Bytes as text of as many characters, each with the number of its byte. -/
namespace Doctest.Octets

def ofBytes (bs : Bytes) : List Char :=
  bs.map fun b => Char.ofNat b.toNat

def toBytes (cs : List Char) : Bytes :=
  cs.map fun c => UInt8.ofNat c.toNat

theorem toNat_ofNat_byte (b : UInt8) : (Char.ofNat b.toNat).toNat = b.toNat := by
  have hb : b.toNat.isValidChar := Or.inl (Nat.lt_trans b.toNat_lt (by decide))
  rw [Char.ofNat, dif_pos hb]
  rfl

theorem toBytes_ofBytes (bs : Bytes) : toBytes (ofBytes bs) = bs := by
  rw [toBytes, ofBytes, List.map_map]
  conv => rhs; rw [← List.map_id bs]
  refine List.map_congr_left fun b _ => ?_
  simp [toNat_ofNat_byte]

end Doctest.Octets
