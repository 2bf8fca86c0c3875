import Mathlib.Data.List.GetD

/-!
# Words in memory

A 32 bit word is stored in four bytes, the least significant byte first.  `le32` are the
bytes of a word, and `getLe32` reads the word at the start of a stretch of memory, where
bytes beyond the end count as zero.  A 64 bit word is stored as two of 32 bits, the lower
one first.
-/

namespace Bytes

/-- The four bytes of a word. -/
def le32 (n : UInt32) : List UInt8 :=
  [n.toUInt8, (n >>> 8).toUInt8, (n >>> 16).toUInt8, (n >>> 24).toUInt8]

/-- The word at the start of memory. -/
def getLe32 (memory : List UInt8) : UInt32 :=
  (memory.getD 0 0).toUInt32 ||| (memory.getD 1 0).toUInt32 <<< 8 |||
    (memory.getD 2 0).toUInt32 <<< 16 ||| (memory.getD 3 0).toUInt32 <<< 24

@[simp]
theorem length_le32 {n : UInt32} :
  (le32 n).length = 4
  := rfl

/-- A word that is stored is read back. -/
theorem getLe32_le32 {n : UInt32} {l : List UInt8} :
  getLe32 (le32 n ++ l) = n
  := by
  simp only [getLe32, le32, List.cons_append, List.getD_cons_zero, List.getD_cons_succ]
  apply UInt32.toBitVec_inj.mp
  ext i hi
  have h8 : 8 ≤ i → 8 + (i - 8) = i := by omega
  have h16 : 16 ≤ i → 16 + (i - 16) = i := by omega
  have h24 : 24 ≤ i → 24 + (i - 24) = i := by omega
  simp only [UInt32.toBitVec_or, UInt32.toBitVec_shiftLeft, UInt32.toBitVec_shiftRight,
    UInt8.toBitVec_toUInt32, UInt32.toBitVec_toUInt8, UInt32.toBitVec_ofNat, BitVec.ofNat_eq_ofNat,
    BitVec.reduceMod, BitVec.ushiftRight_eq', BitVec.toNat_ofNat, Nat.reducePow, Nat.reduceMod,
    BitVec.shiftLeft_eq', BitVec.getElem_or, BitVec.getElem_setWidth, BitVec.getLsbD_setWidth,
    BitVec.getElem_shiftLeft, BitVec.getLsbD_ushiftRight]
  grind

/-- Only four bytes are read. -/
theorem getLe32_append {l l' : List UInt8} (h : 4 ≤ l.length) :
  getLe32 (l ++ l') = getLe32 l
  := by
  rw [getLe32, getLe32, List.getD_append _ _ _ _ (by omega), List.getD_append _ _ _ _ (by omega),
    List.getD_append _ _ _ _ (by omega), List.getD_append _ _ _ _ (by omega)]

/-- The eight bytes of a word. -/
def le64 (n : UInt64) : List UInt8 :=
  le32 n.toUInt32 ++ le32 (n >>> 32).toUInt32

/-- The word of 64 bits at the start of memory. -/
def getLe64 (memory : List UInt8) : UInt64 :=
  (getLe32 memory).toUInt64 ||| (getLe32 (memory.drop 4)).toUInt64 <<< 32

@[simp]
theorem length_le64 {n : UInt64} :
  (le64 n).length = 8
  := rfl

/-- A word of 64 bits that is stored is read back. -/
theorem getLe64_le64 {n : UInt64} {l : List UInt8} :
  getLe64 (le64 n ++ l) = n
  := by
  rw [getLe64, le64, List.append_assoc, getLe32_le32, List.drop_left' length_le32, getLe32_le32]
  apply UInt64.toBitVec_inj.mp
  ext i hi
  have h32 : 32 ≤ i → 32 + (i - 32) = i := by omega
  simp only [UInt64.toBitVec_or, UInt64.toBitVec_shiftLeft, UInt64.toBitVec_shiftRight,
    UInt32.toBitVec_toUInt64, UInt64.toBitVec_toUInt32, UInt64.toBitVec_ofNat,
    BitVec.ofNat_eq_ofNat, BitVec.reduceMod, BitVec.ushiftRight_eq', BitVec.toNat_ofNat,
    Nat.reducePow, Nat.reduceMod, BitVec.shiftLeft_eq', BitVec.getElem_or, BitVec.getElem_setWidth,
    BitVec.getLsbD_setWidth, BitVec.getElem_shiftLeft, BitVec.getLsbD_ushiftRight]
  grind

end Bytes
