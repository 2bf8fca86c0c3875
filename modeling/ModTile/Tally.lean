import Mathlib.Algebra.BigOperators.Group.Finset.Basic
import Mathlib.Algebra.BigOperators.Group.Finset.Piecewise

/-!
# Counters in memory

A memory with a number in every cell, and lists of entries, each of which adds an amount to one
cell.  What the entries add to a set of cells is `amount`, and `sum_post` says that this is all
that happens to the sum over the set.  Two sums that are equal stay equal when the entries add the
same amount to both.
-/

namespace Tally

variable {κ M : Type*} [DecidableEq κ] [AddCommMonoid M] {S T : Finset κ} {k : κ} {m : κ → M}
  {l l' : List (κ × M)}

/-- One entry. -/
def add (m : κ → M) (entry : κ × M) : κ → M := Function.update m entry.1 (m entry.1 + entry.2)

/-- A list of entries, one after another. -/
def post (m : κ → M) (l : List (κ × M)) : κ → M := l.foldl add m

/-- What the entries add to a set of cells. -/
def amount (S : Finset κ) : List (κ × M) → M
  | [] => 0
  | entry :: l => (if entry.1 ∈ S then entry.2 else 0) + amount S l

theorem amount_append :
  amount S (l ++ l') = amount S l + amount S l'
  := by
  induction l with
  | nil => exact (zero_add _).symm
  | cons entry l ih => rw [List.cons_append, amount, amount, ih, add_assoc]

/-- What is added to a set of cells by the entries of several lists. -/
theorem amount_flatMap {α : Type*} {f : α → List (κ × M)} {as : List α}
    (h : ∀ a ∈ as, amount S (f a) = amount T (f a)) :
  amount S (as.flatMap f) = amount T (as.flatMap f)
  := by
  induction as with
  | nil => rfl
  | cons a as ih =>
      rw [List.forall_mem_cons] at h
      rw [List.flatMap_cons, amount_append, amount_append, h.1, ih h.2]

/-- The sum over a set of cells after one entry. -/
theorem sum_add (entry : κ × M) :
  ∑ k ∈ S, add m entry k = (∑ k ∈ S, m k) + if entry.1 ∈ S then entry.2 else 0
  := by
  unfold add
  split_ifs with hmem
  · rw [Finset.sum_update_of_mem hmem, ← Finset.sum_sdiff (Finset.singleton_subset_iff.mpr hmem),
      Finset.sum_singleton, add_comm, ← add_assoc]
  · rw [Finset.sum_update_of_notMem hmem, add_zero]

/-- The sum over a set of cells grows by what is added to the set. -/
theorem sum_post (m : κ → M) (l : List (κ × M)) :
  ∑ k ∈ S, post m l k = (∑ k ∈ S, m k) + amount S l
  := by
  induction l generalizing m with
  | nil => exact (add_zero _).symm
  | cons entry l ih =>
      have hcons : post m (entry :: l) = post (add m entry) l := rfl
      rw [hcons, ih, sum_add, amount, add_assoc]

/-- A cell grows by what is added to it. -/
theorem post_apply (m : κ → M) (l : List (κ × M)) (k : κ) :
  post m l k = m k + amount {k} l
  := by
  have h : ∑ k ∈ {k}, post m l k = (∑ k ∈ {k}, m k) + amount {k} l := sum_post m l
  rwa [Finset.sum_singleton, Finset.sum_singleton] at h

/-- Two sums that are equal stay equal when the same amount is added to both. -/
theorem sum_post_eq (h : ∑ k ∈ S, m k = ∑ k ∈ T, m k) (hl : amount S l = amount T l) :
  ∑ k ∈ S, post m l k = ∑ k ∈ T, post m l k
  := by
  rw [sum_post, sum_post, h, hl]

end Tally
