import Mathlib.Data.Int.Notation
import Mathlib.Tactic.Linarith
import Mathlib.Tactic.Positivity

/-!
# Bits of machine integers

What the operations on the bits of a 32-bit integer do to the number.  The low bits are a
remainder, also for negative numbers, clearing them is rounding down to a multiple of a
power of two, and the shifts divide and multiply.
-/

namespace Bits

variable {x y d : Int32} {k : ℕ}

/-- The number whose lowest `k` bits are set. -/
def mask (k : ℕ) : Int32 := Int32.ofNat (2 ^ k - 1)

theorem toInt_eq_toNat (h : x.toBitVec.toNat < 2 ^ 31) :
  x.toInt = x.toBitVec.toNat
  := by
  rw [Int32.toInt, BitVec.toInt_eq_toNat_of_lt]
  omega

/-- A number that is not negative is the number of its bits. -/
theorem toNat_of_toInt_nonneg {w : ℕ} {v : BitVec w} (h : 0 ≤ v.toInt) :
  (v.toNat : ℤ) = v.toInt
  := by
  rw [BitVec.toInt_eq_toNat_cond] at h ⊢
  split at h
  · rw [if_pos]
    assumption
  · have := v.isLt
    omega

theorem toNat_of_nonneg (h : 0 ≤ x.toInt) :
  (x.toBitVec.toNat : ℤ) = x.toInt
  := toNat_of_toInt_nonneg h

theorem toNat_mask (hk : k ≤ 31) :
  (mask k).toBitVec.toNat = 2 ^ k - 1
  := by
  have h : 2 ^ k ≤ 2 ^ 31 := Nat.pow_le_pow_right (by decide) hk
  have he : (mask k).toBitVec = BitVec.ofNat 32 (2 ^ k - 1) := rfl
  rw [he, BitVec.toNat_ofNat, Nat.mod_eq_of_lt]
  omega

theorem toNat_and_mask (hk : k ≤ 31) :
  (x &&& mask k).toBitVec.toNat = x.toBitVec.toNat % 2 ^ k
  := by
  rw [Int32.toBitVec_and, BitVec.toNat_and, toNat_mask hk, Nat.and_two_pow_sub_one_eq_mod]

/-- A number and the bits of it have the same remainders. -/
theorem toInt_emod_two_pow (hk : k ≤ 31) :
  x.toInt % 2 ^ k = x.toBitVec.toNat % 2 ^ k
  := by
  have h : (2 ^ k : ℤ) ∣ 2 ^ 32 := pow_dvd_pow 2 (by omega)
  rw [Int32.toInt, BitVec.toInt_eq_toNat_cond]
  split
  · rfl
  · rw [Nat.cast_pow, Nat.cast_ofNat, Int.sub_emod, Int.emod_eq_zero_of_dvd h, Int.sub_zero,
      Int.emod_emod]

/-- The low bits are the remainder. -/
theorem toInt_and_mask (hk : k ≤ 31) :
  (x &&& mask k).toInt = x.toInt % 2 ^ k
  := by
  have h : x.toBitVec.toNat % 2 ^ k < 2 ^ 31 := by
    apply Nat.lt_of_lt_of_le (Nat.mod_lt _ (Nat.two_pow_pos k))
    apply Nat.pow_le_pow_right (by decide) hk
  rw [toInt_eq_toNat (by rw [toNat_and_mask hk]; exact h), toNat_and_mask hk, toInt_emod_two_pow hk]
  push_cast
  rfl

/-- The low bits are a small number. -/
theorem exists_and_mask (x : Int32) (hk : k ≤ 30) :
  ∃ n : Fin (2 ^ k), x &&& mask k = Int32.ofNat n ∧ (n : ℤ) = x.toInt % 2 ^ k
  := by
  have hn : (x &&& mask k).toBitVec.toNat = x.toBitVec.toNat % 2 ^ k := toNat_and_mask (by omega)
  use ⟨x.toBitVec.toNat % 2 ^ k, Nat.mod_lt _ (Nat.two_pow_pos k)⟩
  constructor
  · have h : Int32.ofNat (x &&& mask k).toBitVec.toNat = x &&& mask k := by
      apply Int32.toBitVec_inj.mp
      apply BitVec.ofNat_toNat
    rw [hn] at h
    apply h.symm
  · rw [toInt_emod_two_pow (by omega)]
    push_cast
    rfl

/-- A number is the sum of its low bits and its high bits. -/
theorem and_not_add_and (m : Int32) :
  (x &&& ~~~m) + (x &&& m) = x
  := by
  apply Int32.toBitVec_inj.mp
  rw [Int32.toBitVec_add, BitVec.add_eq_or_of_and_eq_zero]
  · ext i
    simp
    grind
  · ext i
    simp
    grind

/-- Clearing the low bits rounds down. -/
theorem toInt_and_not_mask (hk : k ≤ 31) :
  (x &&& ~~~mask k).toInt = x.toInt - x.toInt % 2 ^ k
  := by
  have hsub : x &&& ~~~mask k = x - (x &&& mask k) := by
    nth_rewrite 2 [← and_not_add_and (x := x) (mask k)]
    rw [Int32.add_sub_cancel]
  have hnonneg : 0 ≤ x.toInt % 2 ^ k := Int.emod_nonneg _ (by positivity)
  have hle : -2 ^ 31 ≤ x.toInt - x.toInt % 2 ^ k := by
    have hpow : (2 ^ 31 : ℤ) = 2 ^ k * 2 ^ (31 - k) := by
      rw [← pow_add, Nat.add_sub_cancel' hk]
    have hdiv : -2 ^ (31 - k) ≤ x.toInt / 2 ^ k := by
      rw [Int.le_ediv_iff_mul_le (by positivity)]
      linarith [x.le_toInt]
    have hmul := mul_le_mul_of_nonneg_left hdiv (by positivity : (0 : ℤ) ≤ 2 ^ k)
    linarith [Int.mul_ediv_add_emod x.toInt (2 ^ k)]
  rw [hsub, Int32.toInt_sub, toInt_and_mask hk, Int.bmod_eq_of_le]
  · omega
  · have := x.toInt_lt
    omega

theorem toInt_and_seven :
  (x &&& 7).toInt = x.toInt % 8
  := toInt_and_mask (k := 3) (by decide)

theorem toInt_and_not_seven :
  (x &&& ~~~7).toInt = x.toInt - x.toInt % 8
  := toInt_and_not_mask (k := 3) (by decide)

/-- The difference of two numbers that are not negative. -/
theorem toInt_sub_of_nonneg (hx : 0 ≤ x.toInt) (hy : 0 ≤ y.toInt) :
  (x - y).toInt = x.toInt - y.toInt
  := by
  have hx' := x.toInt_lt
  have hy' := y.toInt_lt
  rw [Int32.toInt_sub, Int.bmod_eq_of_le]
  · omega
  · omega

/-- The sum of two numbers that are not negative, when it is not too large. -/
theorem toInt_add_of_nonneg (hx : 0 ≤ x.toInt) (hy : 0 ≤ y.toInt)
    (h : x.toInt + y.toInt < 2 ^ 31) :
  (x + y).toInt = x.toInt + y.toInt
  := by
  rw [Int32.toInt_add, Int.bmod_eq_of_le]
  · omega
  · omega

/-- Shifting to the right divides, rounding down. -/
theorem toInt_shiftRight (n : Fin 32) :
  (x >>> Int32.ofNat n).toInt = x.toInt / 2 ^ n.val
  := by
  have hall : ∀ n : Fin 32, ((Int32.ofNat n).toBitVec.smod 32).toNat = n := by
    decide
  have h : (x >>> Int32.ofNat n).toBitVec =
      x.toBitVec.sshiftRight ((Int32.ofNat n).toBitVec.smod 32).toNat := rfl
  rw [Int32.toInt, h, hall, BitVec.toInt_sshiftRight, Int.shiftRight_eq_div_pow]
  push_cast
  rfl

theorem toInt_shiftRight_four :
  (x >>> 4).toInt = x.toInt / 16
  := toInt_shiftRight 4

/-- Shifting to the left by one place doubles. -/
theorem toInt_shiftLeft_one (hx : 0 ≤ x.toInt) (hx' : x.toInt < 2 ^ 30) :
  (x <<< 1).toInt = 2 * x.toInt
  := by
  have hxn := toNat_of_nonneg hx
  have h : (x <<< 1).toBitVec.toNat = 2 * x.toBitVec.toNat := by
    have hshift : (x <<< 1).toBitVec = x.toBitVec <<< 1 := rfl
    rw [hshift, BitVec.toNat_shiftLeft, Nat.shiftLeft_eq, Nat.mod_eq_of_lt]
    · omega
    · omega
  rw [toInt_eq_toNat, h, Nat.cast_mul, hxn]
  · rfl
  · omega

/-- Shifting to the left and filling in low bits multiplies and adds. -/
theorem toInt_shiftLeft_four_or (hx : 0 ≤ x.toInt) (hx' : x.toInt < 2 ^ 27)
    (hd : 0 ≤ d.toInt) (hd' : d.toInt < 16) :
  (x <<< 4 ||| d).toInt = 16 * x.toInt + d.toInt
  := by
  have hxn := toNat_of_nonneg hx
  have hdn := toNat_of_nonneg hd
  have h : (x <<< 4 ||| d).toBitVec.toNat = 16 * x.toBitVec.toNat + d.toBitVec.toNat := by
    have hshift : (x <<< 4).toBitVec = x.toBitVec <<< 4 := rfl
    rw [Int32.toBitVec_or, BitVec.toNat_or, hshift, BitVec.toNat_shiftLeft, Nat.mod_eq_of_lt,
      ← Nat.shiftLeft_add_eq_or_of_lt, Nat.shiftLeft_eq, Nat.mul_comm]
    · omega
    · rw [Nat.shiftLeft_eq]
      omega
  rw [toInt_eq_toNat, h, Nat.cast_add, Nat.cast_mul, hxn, hdn]
  · rfl
  · omega

/-- The remainder by a multiple of 16, from the remainder of the quotient. -/
theorem emod_sixteen_mul (n : ℤ) {m : ℤ} (hm : 0 < m) :
  n % (16 * m) = 16 * (n / 16 % m) + n % 16
  := by
  have hn : n = 16 * (n / 16 % m) + n % 16 + 16 * m * (n / 16 / m) := by
    have h := Int.mul_ediv_add_emod n 16
    have h' := Int.mul_ediv_add_emod (n / 16) m
    linarith
  have hr := Int.emod_nonneg (n / 16) hm.ne'
  have hr' := Int.emod_lt_of_pos (n / 16) hm
  nth_rewrite 1 [hn]
  rw [Int.add_mul_emod_self_left]
  apply Int.emod_eq_of_lt
  · omega
  · omega

end Bits
