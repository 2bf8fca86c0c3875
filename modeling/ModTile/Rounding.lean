import Mathlib.Algebra.Order.Floor.Ring
import Mathlib.Data.Rat.Floor
import Mathlib.Order.SuccPred.IntervalSucc
import Mathlib.Data.Nat.SuccPred
import Mathlib.Tactic.Positivity
import Mathlib.Tactic.Linarith

/-!
# Rounding

The results of operations on floating-point numbers are the exact results, rounded to the numbers
of a binary format.  A `FloatRounding` is rounding to a format with at least 53 digits and exponents
without bounds: it keeps the order and the sign, and it keeps the numbers of the format, among
which are small multiples of negative powers of two and the doubles of all its numbers.

An interval is cut into pieces by an increasing sequence of bounds.
-/

/-- FloatRounding to a binary format. -/
structure FloatRounding where
  round : ℚ → ℚ
  mono : Monotone round
  idem : ∀ a, round (round a) = round a
  neg : ∀ a, round (-a) = -round a
  double : ∀ a, round (2 * round a) = 2 * round a
  dyadic : ∀ (n : ℤ) (k : ℕ), |n| ≤ 2 ^ 53 → k ≤ 64 → round (n / 2 ^ k) = n / 2 ^ k

namespace FloatRounding

/-- FloatRounding that keeps every number. -/
def exact : FloatRounding where
  round := id
  mono := monotone_id
  idem := fun _ => rfl
  neg := fun _ => rfl
  double := fun _ => rfl
  dyadic := fun _ _ _ _ => rfl

/-- The integer that is left of a number. -/
def truncate (a : ℚ) : ℤ := if 0 ≤ a then ⌊a⌋ else ⌈a⌉

variable (r : FloatRounding) {a : ℚ} {n : ℤ}

theorem round_intCast (h : |n| ≤ 2 ^ 53) :
  r.round n = n
  := by
  simpa using r.dyadic n 0 h (by decide)

theorem round_half (h : |n| ≤ 2 ^ 53) :
  r.round (n / 2) = n / 2
  := by
  simpa using r.dyadic n 1 h (by decide)

theorem round_zero :
  r.round 0 = 0
  := by
  have h := r.neg 0
  rw [neg_zero] at h
  linarith

theorem round_nonneg (h : 0 ≤ a) :
  0 ≤ r.round a
  := by
  rw [← r.round_zero]
  exact r.mono h

end FloatRounding

/-- A point of an interval that is cut by increasing bounds is in one piece. -/
theorem exists_unique_piece {α : Type*} [LinearOrder α] {f : ℕ → α} (hf : Monotone f) {p : α}
    {n : ℕ} (hp : p ∈ Set.Ioc (f 0) (f n)) :
  ∃! k, k < n ∧ p ∈ Set.Ioc (f k) (f (k + 1))
  := by
  have hunion : p ∈ ⋃ k ∈ Set.Ico 0 n, Set.Ioc (f k) (f (Order.succ k)) := by
    rw [hf.biUnion_Ico_Ioc_map_succ 0 n]
    exact hp
  obtain ⟨k, hk, hpk⟩ := Set.mem_iUnion₂.mp hunion
  refine ⟨k, ⟨hk.2, hpk⟩, ?_⟩
  rintro k' ⟨-, hpk'⟩
  by_contra hne
  exact Set.disjoint_left.mp (hf.pairwise_disjoint_on_Ioc_succ hne) hpk' hpk
