import Mathlib.Logic.Function.Basic
import Doctest.Text.Bytes
import Doctest.Text.Utf8

/-! The bytes of a text. A character of ASCII is one byte, which no other character has among its bytes. -/
namespace Doctest.Bytes

theorem ofString_injective : Function.Injective ofString := by
  intro s t h
  have h : s.toByteArray.data.toList = t.toByteArray.data.toList := h
  exact String.toByteArray_inj.mp (ByteArray.ext (Array.toList_inj.mp h))

theorem ofString_eq_flatMap (s : String) :
    ofString s = s.toList.flatMap String.utf8EncodeChar := by
  conv => lhs; rw [← String.ofList_toList (s := s)]
  show (String.ofList s.toList).toByteArray.data.toList = _
  rw [String.toByteArray_ofList]
  simp [List.utf8Encode]

theorem toNat_eq_of_mem_utf8EncodeChar {c : Char} {b : UInt8} (h : b ∈ String.utf8EncodeChar c)
    (hb : b.toNat ≤ 127) : c.toNat = b.toNat := by
  unfold String.utf8EncodeChar at h
  dsimp only at h
  have hbyte (n : Nat) : (UInt8.ofNat n).toNat = n % 256 := UInt8.toNat_ofNat'
  split at h
  · next hle =>
    obtain rfl := List.mem_singleton.mp h
    rw [hbyte]
    show c.val.toNat = _
    omega
  · have hfalse : 128 ≤ b.toNat := by
      split at h
      · simp only [List.mem_cons, List.not_mem_nil, or_false] at h
        rcases h with rfl | rfl <;> rw [hbyte] <;> omega
      · split at h
        · simp only [List.mem_cons, List.not_mem_nil, or_false] at h
          rcases h with rfl | rfl | rfl <;> rw [hbyte] <;> omega
        · simp only [List.mem_cons, List.not_mem_nil, or_false] at h
          rcases h with rfl | rfl | rfl | rfl <;> rw [hbyte] <;> omega
    omega

/-- A character of ASCII that is not in a text has no byte in it. -/
theorem notMem_ofString {s : String} {b : UInt8} (hb : b.toNat ≤ 127)
    (h : ∀ c ∈ s.toList, c.toNat ≠ b.toNat) : b ∉ ofString s := by
  rw [ofString_eq_flatMap]
  intro hmem
  obtain ⟨c, hc, hbyte⟩ := List.mem_flatMap.mp hmem
  exact h c hc (toNat_eq_of_mem_utf8EncodeChar hbyte hb)

end Doctest.Bytes
