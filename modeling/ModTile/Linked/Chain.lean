import Mathlib.Data.List.Nodup
import Mathlib.Logic.Function.Basic

/-!
# Null-terminated chains

A heap of nodes with one pointer `link`, which may be null, holds the chain `l` from the
pointer `o` when following `link` from `o` visits `l` in order and ends in null.  A chain
is determined by its first pointer and has no repetition, and a node can be put behind its
last one.  `walk` follows the pointers for a bounded number of steps, and returns the chain
when the bound is large enough.
-/

namespace Linked

variable {α : Type*}

/-- Following `link` from the pointer `o` visits the nodes `l` and ends in null. -/
def Chain (link : α → Option α) : Option α → List α → Prop
  | o, [] => o = none
  | o, a :: l => o = some a ∧ Chain link (link a) l

variable {link link' : α → Option α} {o : Option α} {a : α} {l l' l₁ l₂ : List α}

/-- A chain depends on the pointers of its nodes only. -/
theorem Chain.congr (hc : Chain link o l) (hlink : ∀ x ∈ l, link' x = link x) :
  Chain link' o l
  := by
  induction l generalizing o with
  | nil => apply hc
  | cons a l ih =>
      obtain ⟨ho, hc⟩ := hc
      use ho
      rw [hlink a List.mem_cons_self]
      apply ih hc
      intro x hx
      apply hlink x (List.mem_cons_of_mem a hx)

/-- A chain is determined by its first pointer. -/
theorem Chain.unique (hc : Chain link o l) (hc' : Chain link o l') :
  l = l'
  := by
  induction l generalizing o l' with
  | nil =>
      cases l' with
      | nil => rfl
      | cons a l' =>
          obtain rfl : o = none := hc
          simp [Chain] at hc'
  | cons a l ih =>
      obtain ⟨rfl, hc⟩ := hc
      cases l' with
      | nil => simp [Chain] at hc'
      | cons b l' =>
          obtain ⟨hab, hc'⟩ := hc'
          obtain rfl : a = b := Option.some.inj hab
          rw [ih hc hc']

/-- The nodes from a node of a chain on form the chain from that node. -/
theorem Chain.of_append (hc : Chain link o (l₁ ++ a :: l₂)) :
  Chain link (some a) (a :: l₂)
  := by
  induction l₁ generalizing o with
  | nil =>
      obtain ⟨-, hc⟩ := hc
      exact ⟨rfl, hc⟩
  | cons b l₁ ih => apply ih hc.2

/-- No node occurs twice in a chain. -/
theorem Chain.nodup (hc : Chain link o l) :
  l.Nodup
  := by
  induction l generalizing o with
  | nil => apply List.nodup_nil
  | cons a l ih =>
      obtain ⟨-, hc⟩ := hc
      apply List.nodup_cons.mpr
      use fun hmem => ?_, ih hc
      obtain ⟨l₁, l₂, rfl⟩ := List.append_of_mem hmem
      obtain ⟨-, hc'⟩ := hc.of_append
      have hlen := congrArg List.length (hc.unique hc')
      simp only [List.length_append, List.length_cons] at hlen
      omega

/-- A node is put behind the last node of a chain. -/
theorem Chain.concat {b : α} (hc : Chain link o (l ++ [a])) (hlink : ∀ x ∈ l, link' x = link x)
    (ha : link' a = some b) (hb : link' b = none) :
  Chain link' o (l ++ [a, b])
  := by
  induction l generalizing o with
  | nil =>
      obtain ⟨ho, -⟩ := hc
      exact ⟨ho, ha, hb⟩
  | cons x l ih =>
      obtain ⟨ho, hc⟩ := hc
      use ho
      rw [hlink x List.mem_cons_self]
      apply ih hc
      intro y hy
      apply hlink y (List.mem_cons_of_mem x hy)

/-- The nodes that following `link` from `o` visits in at most `fuel` steps. -/
def walk (link : α → Option α) : ℕ → Option α → List α
  | _, none => []
  | 0, some _ => []
  | fuel + 1, some a => a :: walk link fuel (link a)

/-- With enough steps, `walk` returns the chain. -/
theorem Chain.walk_eq (hc : Chain link o l) {fuel : ℕ} (hfuel : l.length ≤ fuel) :
  walk link fuel o = l
  := by
  induction l generalizing o fuel with
  | nil =>
      obtain rfl : o = none := hc
      simp [walk]
  | cons a l ih =>
      obtain ⟨rfl, hc⟩ := hc
      cases fuel with
      | zero => simp at hfuel
      | succ fuel =>
          rw [walk, ih hc]
          simpa using hfuel

end Linked
