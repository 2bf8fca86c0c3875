import Mathlib.Algebra.BigOperators.Group.Finset.Basic
import Mathlib.Data.Finset.Card

/-!
# Condition variables

The threads at a condition variable: those that wait, and those that have been woken up and do not
have the mutex again.  A signal wakes up one of the waiting threads, if there is one, and the
environment chooses which.  A thread can also be woken up without a signal.

A queue with a consumer for every signal is described by `Covers`: when a thread waits, there are
at least as many threads on their way as there are things to take.  Nothing that is put into the
queue is then overlooked.

What several threads have left to do is measured by a sum over the threads, which changes by one
term when one of them goes on.
-/

/-- The threads that wait, and those that have been woken up. -/
structure CondVar (τ : Type*) where
  waiting : Finset τ
  awake : Finset τ
  disjoint : Disjoint waiting awake

namespace CondVar

variable {τ : Type*}

/-- No thread has come to wait yet. -/
def init : CondVar τ where
  waiting := ∅
  awake := ∅
  disjoint := Finset.disjoint_empty_left ∅

/-- There are `n` things to take, and when a thread waits, as many threads are on their way. -/
def Covers (c : CondVar τ) (n : ℕ) : Prop := c.waiting.Nonempty → n ≤ c.awake.card

namespace Covers

variable {c : CondVar τ} {t : τ} {n m : ℕ}

theorem init : (CondVar.init : CondVar τ).Covers n := fun h => absurd h Finset.not_nonempty_empty

theorem zero : c.Covers 0 := fun _ => Nat.zero_le _

theorem mono (h : c.Covers n) (hle : m ≤ n) : c.Covers m := fun hwaiting => hle.trans (h hwaiting)

/-- When there is something to take and a thread waits, another thread is on its way. -/
theorem exists_awake (h : c.Covers n) (hn : 0 < n) (ht : t ∈ c.waiting) :
  ∃ t', t' ∈ c.awake
  := by
  have hle := h ⟨t, ht⟩
  exact Finset.card_pos.mp (hn.trans_le hle)

end Covers

variable [DecidableEq τ]

theorem disjoint_insert_erase {s s' : Finset τ} (h : Disjoint s s') (t : τ) :
  Disjoint (insert t s) (s'.erase t)
  := by
  rw [Finset.disjoint_insert_left]
  exact ⟨Finset.notMem_erase t s', h.mono_right (Finset.erase_subset t s')⟩

/-- A thread waits, for the first time or again after it has been woken up. -/
def wait (c : CondVar τ) (t : τ) : CondVar τ where
  waiting := insert t c.waiting
  awake := c.awake.erase t
  disjoint := disjoint_insert_erase c.disjoint t

/-- A thread is woken up. -/
def wake (c : CondVar τ) (t : τ) : CondVar τ where
  waiting := c.waiting.erase t
  awake := insert t c.awake
  disjoint := (disjoint_insert_erase c.disjoint.symm t).symm

/-- A thread that has been woken up does not wait again. -/
def leave (c : CondVar τ) (t : τ) : CondVar τ where
  waiting := c.waiting
  awake := c.awake.erase t
  disjoint := c.disjoint.mono_right (Finset.erase_subset t c.awake)

/-- A signal wakes up the given thread, which has to wait, or no thread when none waits. -/
def signal (c : CondVar τ) (t : Option τ) : Option (CondVar τ) :=
  match t with
  | none => if c.waiting = ∅ then some c else none
  | some t => if t ∈ c.waiting then some (c.wake t) else none

/-- A broadcast wakes up all threads that wait. -/
def broadcast (c : CondVar τ) : CondVar τ where
  waiting := ∅
  awake := c.waiting ∪ c.awake
  disjoint := Finset.disjoint_empty_left _

variable {c c' : CondVar τ} {t : τ} {u : Option τ} {n : ℕ}

/-- A signal is always possible. -/
theorem exists_signal (c : CondVar τ) :
  ∃ u c', c.signal u = some c'
  := by
  rcases c.waiting.eq_empty_or_nonempty with hwaiting | ⟨t, ht⟩
  · exact ⟨none, c, if_pos hwaiting⟩
  · exact ⟨some t, c.wake t, if_pos ht⟩

/-- What a signal does. -/
theorem signal_eq_some (h : c.signal u = some c') :
  c.waiting = ∅ ∧ c' = c ∨ ∃ t ∈ c.waiting, c' = c.wake t
  := by
  cases u with
  | none =>
      dsimp only [signal] at h
      split_ifs at h with hwaiting
      exact Or.inl ⟨hwaiting, (Option.some.inj h).symm⟩
  | some t =>
      dsimp only [signal] at h
      split_ifs at h with ht
      exact Or.inr ⟨t, ht, (Option.some.inj h).symm⟩

/-- A signal makes one waiting thread less, if there was one. -/
theorem card_waiting_signal (h : c.signal u = some c') :
  c.waiting.card ≤ c'.waiting.card + 1
  := by
  rcases signal_eq_some h with ⟨-, rfl⟩ | ⟨t, -, rfl⟩
  · exact Nat.le_succ _
  · exact Nat.le_add_of_sub_le Finset.pred_card_le_card_erase

/-- A thread is at the variable: it waits or has been woken up. -/
def At (c : CondVar τ) (t : τ) : Prop := t ∈ c.waiting ∨ t ∈ c.awake

theorem At.of_wait {t' : τ} (h : (c.wait t).At t') :
  t' = t ∨ c.At t'
  := by
  rcases h with h | h
  · exact (Finset.mem_insert.mp h).imp_right Or.inl
  · exact Or.inr (Or.inr (Finset.mem_of_mem_erase h))

theorem At.of_wake {t' : τ} (h : (c.wake t).At t') (ht : t ∈ c.waiting) :
  c.At t'
  := by
  rcases h with h | h
  · exact Or.inl (Finset.mem_of_mem_erase h)
  · rcases Finset.mem_insert.mp h with rfl | h
    · exact Or.inl ht
    · exact Or.inr h

theorem At.of_signal (h : c'.At t) (hsignal : c.signal u = some c') :
  c.At t
  := by
  rcases signal_eq_some hsignal with ⟨-, rfl⟩ | ⟨t', ht', rfl⟩
  · exact h
  · exact h.of_wake ht'

theorem At.of_broadcast (h : c.broadcast.At t) :
  c.At t
  := by
  rcases h with h | h
  · cases Finset.notMem_empty t h
  · exact Finset.mem_union.mp h

theorem At.of_leave {t' : τ} (h : (c.leave t).At t') :
  c.At t'
  := by
  rcases h with h | h
  · exact Or.inl h
  · exact Or.inr (Finset.mem_of_mem_erase h)

/-- A thread that has left is not at the variable. -/
theorem not_at_leave (ht : t ∉ c.waiting) :
  ¬ (c.leave t).At t
  := by
  rintro (h | h)
  · exact ht h
  · exact Finset.notMem_erase t c.awake h

namespace Covers

theorem wake (h : c.Covers n) :
  (c.wake t).Covers n
  := by
  intro hwaiting
  have hle := h (hwaiting.mono (Finset.erase_subset t c.waiting))
  exact hle.trans (Finset.card_le_card (Finset.subset_insert t c.awake))

/-- One thing more to take, and a signal for it. -/
theorem signal (h : c.Covers n) (hsignal : c.signal u = some c') :
  c'.Covers (n + 1)
  := by
  rcases signal_eq_some hsignal with ⟨hempty, rfl⟩ | ⟨t, ht, rfl⟩
  · intro hwaiting
    rw [hempty] at hwaiting
    exact absurd hwaiting Finset.not_nonempty_empty
  · intro _
    have hawake : t ∉ c.awake := Finset.disjoint_left.mp c.disjoint ht
    have hcard : (c.wake t).awake.card = c.awake.card + 1 := Finset.card_insert_of_notMem hawake
    rw [hcard]
    exact Nat.succ_le_succ (h ⟨t, ht⟩)

/-- One thing less to take, taken by a thread that is no longer on its way. -/
theorem leave (h : c.Covers (n + 1)) :
  (c.leave t).Covers n
  := by
  intro hwaiting
  have hle : c.awake.card - 1 ≤ (c.leave t).awake.card := Finset.pred_card_le_card_erase
  exact (Nat.le_sub_of_add_le (h hwaiting)).trans hle

theorem broadcast : c.broadcast.Covers n := fun h => absurd h Finset.not_nonempty_empty

end Covers

/-- What the threads have left to do when one of them goes on. -/
theorem sum_range_of_ne {f g : ℕ → ℕ} {w : ℕ} (hw : w < n) (h : ∀ x, x ≠ w → g x = f x) :
  ∑ x ∈ Finset.range n, g x + f w = ∑ x ∈ Finset.range n, f x + g w
  := by
  have hmem : w ∈ Finset.range n := Finset.mem_range.mpr hw
  have hrest : ∑ x ∈ (Finset.range n).erase w, g x = ∑ x ∈ (Finset.range n).erase w, f x :=
    Finset.sum_congr rfl fun x hx => h x (Finset.ne_of_mem_erase hx)
  rw [← Finset.add_sum_erase _ g hmem, hrest, ← Finset.add_sum_erase _ f hmem]
  omega

end CondVar
