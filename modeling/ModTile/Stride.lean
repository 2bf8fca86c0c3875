import Mathlib.Data.Int.Basic
import Mathlib.Data.List.Basic
import Mathlib.Tactic.Linarith
import Mathlib.Tactic.Ring

/-!
# Loops with a step

The values of a variable that a loop increases by `step` from `first` on, while it is at most
`last`.  The numbers are divided into blocks of `step` numbers, one of which begins with 0.  The
loop has one value in a block at most, and it has a value in every block between those of `first`
and `last` exactly when `first` is not further into its block than `last` into its own.
-/

namespace Stride

/-- The values of the variable. -/
def stride (step : ℕ) (hstep : 0 < step) (first last : ℤ) : List ℤ :=
  if first ≤ last then first :: stride step hstep (first + step) last else []
termination_by (last + 1 - first).toNat
decreasing_by
  omega

variable {step : ℕ} {hstep : 0 < step} {first last x : ℤ}

theorem mem_stride :
  x ∈ stride step hstep first last ↔ ∃ k : ℕ, x = first + step * k ∧ x ≤ last
  := by
  fun_induction stride step hstep first last with
  | case1 first hle ih =>
      rw [List.mem_cons, ih]
      constructor
      · rintro (rfl | ⟨k, rfl, hk⟩)
        · exact ⟨0, by simp, hle⟩
        · refine ⟨k + 1, ?_, hk⟩
          push_cast
          ring
      · rintro ⟨k, rfl, hk⟩
        cases k with
        | zero => simp
        | succ k =>
            right
            refine ⟨k, ?_, hk⟩
            push_cast
            ring
  | case2 first hle =>
      rw [List.mem_nil_iff, false_iff]
      rintro ⟨k, rfl, hk⟩
      have hmul : (0 : ℤ) ≤ step * k := by positivity
      omega

/-- The block of a value. -/
theorem ediv_of_eq {k : ℕ} (hstep : 0 < step) (h : x = first + step * k) :
  x / step = first / step + k
  := by
  rw [h, Int.add_mul_ediv_left]
  omega

/-- Different values are in different blocks. -/
theorem pairwise_stride :
  (stride step hstep first last).Pairwise fun x y : ℤ => x / step ≠ y / step
  := by
  fun_induction stride step hstep first last with
  | case1 first hle ih =>
      rw [List.pairwise_cons]
      refine ⟨?_, ih⟩
      intro x hx
      obtain ⟨k, hk, -⟩ := mem_stride.mp hx
      have hx : x = first + step * (k + 1 : ℕ) := by
        rw [hk]
        push_cast
        ring
      rw [ediv_of_eq hstep hx]
      omega
  | case2 first hle => apply List.Pairwise.nil

/-- The loop has a value in the block of a number when `first` is not further into its block than
`last`. -/
theorem exists_mem_stride (hmod : first % step ≤ last % step) (hfirst : first ≤ x)
    (hlast : x ≤ last) :
  ∃ y ∈ stride step hstep first last, y / step = x / step
  := by
  have hpos : (0 : ℤ) < step := by omega
  have hblocks : first / step ≤ x / step := Int.ediv_le_ediv hpos hfirst
  obtain ⟨k, hk⟩ := Int.eq_ofNat_of_zero_le (Int.sub_nonneg.mpr hblocks)
  have hvalue : first + step * k = step * (x / step) + first % step := by
    rw [← hk]
    have hfirst := Int.mul_ediv_add_emod first step
    linarith
  refine ⟨first + step * k, mem_stride.mpr ⟨k, rfl, ?_⟩, ?_⟩
  · rw [hvalue]
    rcases (Int.ediv_le_ediv hpos hlast).eq_or_lt with heq | hlt
    · have hend := Int.mul_ediv_add_emod last step
      rw [heq]
      linarith
    · have hmul : step * (x / step + 1) ≤ step * (last / step) :=
        Int.mul_le_mul_of_nonneg_left hlt hpos.le
      have hmod' := Int.emod_lt_of_pos first hpos
      have hend := Int.mul_ediv_self_le (x := last) hpos.ne'
      linarith
  · rw [ediv_of_eq hstep rfl]
    omega

/-- The loop has a value in every block between those of `first` and `last` exactly when `first`
is not further into its block than `last`. -/
theorem covers_iff (hstep : 0 < step) (h : first ≤ last) :
  (∀ x, first ≤ x → x ≤ last → ∃ y ∈ stride step hstep first last, y / step = x / step) ↔
    first % step ≤ last % step
  := by
  constructor
  · intro hcovers
    obtain ⟨y, hy, hblock⟩ := hcovers last h le_rfl
    obtain ⟨k, rfl, hle⟩ := mem_stride.mp hy
    have hvalue := Int.mul_ediv_add_emod (first + step * k) step
    have hend := Int.mul_ediv_add_emod last step
    rw [Int.add_mul_emod_self_left, hblock] at hvalue
    linarith
  · intro hmod x hfirst hlast
    apply exists_mem_stride hmod hfirst hlast

end Stride
