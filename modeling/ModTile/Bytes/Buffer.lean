import Mathlib.Data.List.Basic

/-!
# Buffers

`copyTo` is what `memcpy` does to a buffer.  A buffer often holds blocks one after the other;
each of them is found behind the blocks before it.
-/

namespace Bytes

variable {α : Type*}

/-- The buffer after `data` has been copied to the place `pos`. -/
def copyTo (buffer : List α) (pos : ℕ) (data : List α) : List α :=
  buffer.take pos ++ data ++ buffer.drop (pos + data.length)

/-- Copying replaces a part of the same length. -/
theorem copyTo_append {front old data back : List α} {pos : ℕ} (hpos : front.length = pos)
    (hlen : old.length = data.length) :
  copyTo (front ++ (old ++ back)) pos data = front ++ (data ++ back)
  := by
  subst hpos
  rw [copyTo, List.take_left, ← hlen, ← List.drop_drop, List.drop_left, List.drop_left,
    List.append_assoc]

/-- Copying behind the end of a buffer. -/
theorem copyTo_end {front data : List α} {pos : ℕ} (hpos : front.length = pos) :
  copyTo front pos data = front ++ data
  := by
  rw [copyTo, List.take_of_length_le (by omega), List.drop_eq_nil_of_le (by omega),
    List.append_nil]

/-- Copying to the first unused place of a buffer. -/
theorem copyTo_replicate {front data : List α} {a : α} {pos n : ℕ} (hpos : front.length = pos)
    (hlen : data.length ≤ n) :
  copyTo (front ++ List.replicate n a) pos data =
    front ++ data ++ List.replicate (n - data.length) a
  := by
  have hsplit : List.replicate n a =
      List.replicate data.length a ++ List.replicate (n - data.length) a := by
    rw [List.replicate_append_replicate, Nat.add_sub_cancel' hlen]
  rw [hsplit, copyTo_append hpos (by rw [List.length_replicate]), List.append_assoc]

/-! ### Blocks one after the other -/

/-- The first `n` blocks. -/
def blocks (f : ℕ → List α) (n : ℕ) : List α :=
  (List.range n).flatMap f

variable {f : ℕ → List α} {n i k : ℕ}

theorem blocks_succ :
  blocks f (n + 1) = blocks f n ++ f n
  := by
  simp [blocks, List.range_succ]

/-- A block stands behind the blocks before it. -/
theorem exists_blocks_eq (h : i < n) :
  ∃ back, blocks f n = blocks f i ++ (f i ++ back)
  := by
  induction n with
  | zero => contradiction
  | succ n ih =>
      rw [blocks_succ]
      rcases Nat.lt_succ_iff_lt_or_eq.mp h with hlt | rfl
      · obtain ⟨back, hback⟩ := ih hlt
        use back ++ f n
        rw [hback, List.append_assoc, List.append_assoc]
      · use []
        rw [List.append_nil]

/-- Blocks of one length. -/
theorem length_blocks (h : ∀ i, (f i).length = k) :
  (blocks f n).length = k * n
  := by
  induction n with
  | zero => rfl
  | succ n ih => rw [blocks_succ, List.length_append, ih, h, Nat.mul_succ]

/-- More blocks are not shorter. -/
theorem length_blocks_mono (h : i ≤ n) :
  (blocks f i).length ≤ (blocks f n).length
  := by
  induction n with
  | zero =>
      obtain rfl := Nat.le_zero.mp h
      apply Nat.le_refl
  | succ n ih =>
      rcases Nat.le_succ_iff.mp h with hle | rfl
      · rw [blocks_succ, List.length_append]
        apply Nat.le_add_right_of_le (ih hle)
      · apply Nat.le_refl

end Bytes
