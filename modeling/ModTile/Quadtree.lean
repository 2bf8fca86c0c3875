import Mathlib.Tactic.Positivity
import Mathlib.Tactic.Ring
import ModTile.Linked.Chain

/-!
# Quadtrees

A square map is cut into four squares at level one, each of these into four at level two, and so
on.  A square is given by its level and its coordinates; a step up halves them.  A block groups the
squares of one level into larger squares, and the blocks form a quadtree of their own: the block of
an ancestor is the ancestor of the block.
-/

namespace Quadtree

open Linked

/-- A square of a map. -/
@[ext]
structure Square where
  level : ℤ
  x : ℤ
  y : ℤ
  deriving DecidableEq

namespace Square

variable {a b : Square} {k m n : ℕ} {low : ℤ}

/-- The square that contains `a`, `n` levels above it. -/
def ancestor (n : ℕ) (a : Square) : Square := ⟨a.level - n, a.x / 2 ^ n, a.y / 2 ^ n⟩

/-- The first of the squares that `a` consists of, `n` levels below it. -/
def corner (n : ℕ) (a : Square) : Square := ⟨a.level + n, a.x * 2 ^ n, a.y * 2 ^ n⟩

/-- The block of `a`, when `2 ^ k` squares in each direction form a block. -/
def block (k : ℕ) (a : Square) : Square := ⟨a.level, a.x / 2 ^ k, a.y / 2 ^ k⟩

/-- The square is inside the map. -/
structure Inside (a : Square) : Prop where
  level_nonneg : 0 ≤ a.level
  x_nonneg : 0 ≤ a.x
  x_lt : a.x < 2 ^ a.level.toNat
  y_nonneg : 0 ≤ a.y
  y_lt : a.y < 2 ^ a.level.toNat

@[simp]
theorem ancestor_zero :
  a.ancestor 0 = a
  := by
  simp [ancestor]

theorem ancestor_ancestor :
  (a.ancestor n).ancestor m = a.ancestor (n + m)
  := by
  have hdiv : ∀ x : ℤ, x / 2 ^ n / 2 ^ m = x / 2 ^ (n + m) := by
    intro x
    rw [Int.ediv_ediv_of_nonneg (by positivity), ← pow_add]
  ext
  · simp only [ancestor]
    push_cast
    ring
  · exact hdiv a.x
  · exact hdiv a.y

@[simp]
theorem corner_zero :
  a.corner 0 = a
  := by
  simp [corner]

theorem corner_corner :
  (a.corner n).corner m = a.corner (n + m)
  := by
  have hmul : ∀ x : ℤ, x * 2 ^ n * 2 ^ m = x * 2 ^ (n + m) := by
    intro x
    ring
  ext
  · simp only [corner]
    push_cast
    ring
  · exact hmul a.x
  · exact hmul a.y

/-- The ancestors of the corner of a square, from the square on, are the ancestors of the
square. -/
theorem ancestor_corner :
  (a.corner n).ancestor (n + m) = a.ancestor m
  := by
  have hdiv : ∀ x : ℤ, x * 2 ^ n / 2 ^ (n + m) = x / 2 ^ m := by
    intro x
    rw [pow_add, mul_comm x, Int.mul_ediv_mul_of_pos _ _ (by positivity)]
  ext
  · simp only [ancestor, corner]
    push_cast
    ring
  · exact hdiv a.x
  · exact hdiv a.y

theorem block_ancestor :
  (a.ancestor n).block k = (a.block k).ancestor n
  := by
  have hdiv : ∀ x : ℤ, x / 2 ^ n / 2 ^ k = x / 2 ^ k / 2 ^ n := by
    intro x
    rw [Int.ediv_ediv_of_nonneg (by positivity), Int.ediv_ediv_of_nonneg (by positivity), mul_comm]
  ext
  · rfl
  · exact hdiv a.x
  · exact hdiv a.y

/-- A bound of the level bounds the coordinates. -/
theorem Inside.lt_two_pow (h : a.Inside) (hk : a.level ≤ k) :
  a.x < 2 ^ k ∧ a.y < 2 ^ k
  := by
  have hpow : (2 : ℤ) ^ a.level.toNat ≤ 2 ^ k := by
    apply pow_le_pow_right₀ (by decide)
    omega
  exact ⟨h.x_lt.trans_le hpow, h.y_lt.trans_le hpow⟩

/-- The ancestors of a square of the map are squares of the map. -/
theorem Inside.ancestor (h : a.Inside) (hn : n ≤ a.level) :
  (a.ancestor n).Inside
  := by
  have hpow : (2 : ℤ) ^ a.level.toNat = 2 ^ (a.level - n).toNat * 2 ^ n := by
    rw [← pow_add]
    congr 1
    omega
  have hlt : ∀ {x : ℤ}, x < 2 ^ a.level.toNat → x / 2 ^ n < 2 ^ (a.level - n).toNat := by
    intro x hx
    apply Int.ediv_lt_of_lt_mul (by positivity)
    rw [← hpow]
    exact hx
  constructor
  case level_nonneg => exact Int.sub_nonneg_of_le hn
  case x_nonneg => exact Int.ediv_nonneg h.x_nonneg (by positivity)
  case x_lt => exact hlt h.x_lt
  case y_nonneg => exact Int.ediv_nonneg h.y_nonneg (by positivity)
  case y_lt => exact hlt h.y_lt

theorem Inside.corner (h : a.Inside) :
  (a.corner n).Inside
  := by
  have hpow : (2 : ℤ) ^ (a.level + n).toNat = 2 ^ a.level.toNat * 2 ^ n := by
    rw [← pow_add]
    congr 1
    have := h.level_nonneg
    omega
  have hlt : ∀ {x : ℤ}, x < 2 ^ a.level.toNat → x * 2 ^ n < 2 ^ (a.level + n).toNat := by
    intro x hx
    rw [hpow]
    exact mul_lt_mul_of_pos_right hx (by positivity)
  constructor
  case level_nonneg => exact Int.add_nonneg h.level_nonneg (Int.natCast_nonneg n)
  case x_nonneg => exact Int.mul_nonneg h.x_nonneg (by positivity)
  case x_lt => exact hlt h.x_lt
  case y_nonneg => exact Int.mul_nonneg h.y_nonneg (by positivity)
  case y_lt => exact hlt h.y_lt

/-! ### Paths -/

/-- The parent of a square below the level `low`. -/
def parent (low : ℤ) (a : Square) : Option Square :=
  if low < a.level then some (a.ancestor 1) else none

/-- The square and its ancestors, `n` of them. -/
def path : ℕ → Square → List Square
  | 0, _ => []
  | n + 1, a => a :: path n (a.ancestor 1)

theorem mem_path :
  b ∈ a.path n ↔ ∃ m < n, b = a.ancestor m
  := by
  induction n generalizing a with
  | zero => simp [path]
  | succ n ih =>
      rw [path, List.mem_cons, ih, Nat.exists_lt_succ_left, ancestor_zero]
      simp only [ancestor_ancestor, Nat.add_comm 1]

/-- The path up to the level `low` is a chain. -/
theorem chain_path (h : a.level = low + n) :
  Chain (parent low) (some a) (a.path (n + 1))
  := by
  induction n generalizing a with
  | zero =>
      use rfl
      have hlow : ¬ low < a.level := by
        rw [h]
        simp
      rw [parent, if_neg hlow]
      rfl
  | succ n ih =>
      use rfl
      have hlow : low < a.level := by
        rw [h]
        push_cast
        omega
      rw [parent, if_pos hlow]
      apply ih
      simp only [ancestor, h]
      push_cast
      ring

end Square

end Quadtree
