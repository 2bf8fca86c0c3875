import Mathlib.Logic.Function.Basic
import Mathlib.Tactic.SplitIfs

/-!
# A copy of one entry of a store

A store has an entry for some of its keys, and a part of one entry is kept outside of it.  The
copy carries the key of its entry for as long as that entry has not been changed.  `Current` says
that the copy is then the part of the entry that the store has now.  It holds when the copy is
made, and is kept when an entry changes and its copy is disowned.
-/

/-- A copy, with the key of its entry if the entry is known to be the same. -/
structure CachedEntry (κ β : Type*) where
  source : Option κ
  value : β

namespace CachedEntry

variable {κ α β : Type*} {part : α → β} {store : κ → Option α} {c : CachedEntry κ β} {k : κ}

/-- The copy is the part of the entry in the store. -/
def Current (part : α → β) (store : κ → Option α) (c : CachedEntry κ β) : Prop :=
  ∀ k, c.source = some k → ∃ a, store k = some a ∧ c.value = part a

/-- The entry for a key has changed. -/
def disown [DecidableEq κ] (k : κ) (c : CachedEntry κ β) : CachedEntry κ β where
  source := if c.source = some k then none else c.source
  value := c.value

/-- A copy of no entry. -/
theorem current_none {value : β} :
  Current part store ⟨none, value⟩
  := by
  rintro k ⟨⟩

/-- A copy that has just been made. -/
theorem current_part {a : α} (h : store k = some a) :
  Current part store ⟨some k, part a⟩
  := by
  rintro k' ⟨⟩
  exact ⟨a, h, rfl⟩

/-- A copy whose entry may have changed is disowned. -/
theorem Current.disown [DecidableEq κ] {entry : Option α} (h : c.Current part store) :
  (c.disown k).Current part (Function.update store k entry)
  := by
  intro k' hk'
  rw [CachedEntry.disown] at hk'
  split_ifs at hk' with hk
  have hne : k' ≠ k := by
    rintro rfl
    apply hk hk'
  rw [Function.update_of_ne hne]
  apply h k' hk'

end CachedEntry
