import ModTile.RequestQueue.View

/-!
# Clearing a file descriptor

The loops of `request_queue_clear_requests_by_fd` go through five of the six lists and
through the duplicates of every item on them.  On a queue that represents a view they end,
and they write to the items on these lists and to their duplicates, and to nothing else.
-/

open Linked

namespace RequestQueue

/-- Memory in which the file descriptor `fd` has been cleared from the given items. -/
def clearItems (m : Heap) (fd : ℤ) (l : List Ptr) : Heap :=
  fun x => if x ∈ l ∧ (m x).fd = fd then { m x with fd := fdInvalid } else m x

variable {m : Heap} {fd : ℤ} {l l' : List Ptr} {p x : Ptr}

theorem clearFd_eq :
  clearFd m fd p = clearItems m fd [p]
  := by
  funext x
  by_cases hx : x = p
  · subst hx
    by_cases hfd : (m x).fd = fd
    · simp [clearFd, clearItems, hfd]
    · simp [clearFd, clearItems, hfd]
  · by_cases hfd : (m p).fd = fd
    · simp [clearFd, clearItems, hfd, hx]
    · simp [clearFd, clearItems, hfd, hx]

/-- Clearing from some items and then from others clears from all of them. -/
theorem clearItems_clearItems :
  clearItems (clearItems m fd l) fd l' = clearItems m fd (l ++ l')
  := by
  funext x
  simp only [clearItems, List.mem_append]
  by_cases hfd : (m x).fd = fd
  · by_cases hl : x ∈ l
    · simp [hl, hfd]
    · simp [hl, hfd]
  · simp [hfd]

/-- Clearing changes nothing but file descriptors. -/
theorem clearItems_apply :
  clearItems m fd l x = { m x with fd := (clearItems m fd l x).fd }
  := by
  simp only [clearItems]
  split <;> rfl

theorem next_clearItems :
  (clearItems m fd l).next = m.next
  := by
  funext x
  rw [Heap.next, clearItems_apply]
  rfl

theorem prev_clearItems :
  (clearItems m fd l).prev = m.prev
  := by
  funext x
  rw [Heap.prev, clearItems_apply]
  rfl

theorem duplicates_clearItems :
  (clearItems m fd l).duplicates = m.duplicates
  := by
  funext x
  rw [Heap.duplicates, clearItems_apply]
  rfl

/-- The loop over a chain of duplicates clears all of them. -/
theorem clearDupes_eq {rounds : ℕ} {o : Option Ptr} (hc : Chain m.duplicates o l)
    (hrounds : l.length ≤ rounds) :
  clearDupes fd rounds m o = some (clearItems m fd l)
  := by
  induction l generalizing m o rounds with
  | nil =>
      obtain rfl : o = none := hc
      have hm : clearItems m fd [] = m := by
        funext x
        simp [clearItems]
      rw [clearDupes, hm]
  | cons a l ih =>
      obtain ⟨rfl, hc⟩ := hc
      cases rounds with
      | zero => simp at hrounds
      | succ rounds =>
          have hdup : (clearFd m fd a a).duplicates = m.duplicates a := by
            rw [clearFd_eq, clearItems_apply]
            rfl
          have hc' : Chain (clearFd m fd a).duplicates (m.duplicates a) l := by
            rw [clearFd_eq, duplicates_clearItems]
            apply hc
          rw [clearDupes, hdup, ih hc' (by simpa using hrounds), clearFd_eq,
            clearItems_clearItems]
          rfl

/-- The items that the loop over a list visits: the items of the list, each followed by its
duplicates. -/
def visited (dups : Ptr → List Ptr) (l : List Ptr) : List Ptr :=
  l.flatMap fun p => p :: dups p

theorem mem_visited {lists : List ListHead} {v : View} :
  x ∈ lists.flatMap (fun list => visited v.dups (v.lists list)) ↔
    ∃ list ∈ lists, ∃ t ∈ v.lists list, x = t ∨ x ∈ v.dups t
  := by simp only [visited, List.mem_flatMap, List.mem_cons]

/-- The loop over the rest of a list clears its items and their duplicates. -/
theorem clearList_eq {a queueHead : Ptr} {rounds dupeRounds : ℕ} {dups : Ptr → List Ptr}
    (hs : Segment m.next m.prev a l queueHead) (hhead : queueHead ∉ l)
    (hc : ∀ p ∈ l, Chain m.duplicates (m.duplicates p) (dups p))
    (hrounds : l.length ≤ rounds) (hdupes : ∀ p ∈ l, (dups p).length ≤ dupeRounds) :
  clearList fd queueHead dupeRounds rounds m (m.next a) = some (clearItems m fd (visited dups l))
  := by
  induction l generalizing m a rounds with
  | nil =>
      obtain ⟨hnext, -⟩ := hs
      have hm : clearItems m fd (visited dups []) = m := by
        funext x
        simp [clearItems, visited]
      rw [hnext, hm]
      cases rounds with
      | zero => simp [clearList]
      | succ rounds => simp [clearList]
  | cons c l ih =>
      obtain ⟨hnext, -, hs⟩ := hs
      simp only [List.mem_cons, not_or] at hhead
      cases rounds with
      | zero => simp at hrounds
      | succ rounds =>
          have hdup : (clearFd m fd c c).duplicates = m.duplicates c := by
            rw [clearFd_eq, clearItems_apply]
            rfl
          have hchain : Chain (clearFd m fd c).duplicates (m.duplicates c) (dups c) := by
            rw [clearFd_eq, duplicates_clearItems]
            apply hc c List.mem_cons_self
          have hloop : clearDupes fd dupeRounds (clearFd m fd c) (clearFd m fd c c).duplicates
              = some (clearItems m fd (c :: dups c)) := by
            rw [hdup, clearDupes_eq hchain (hdupes c List.mem_cons_self), clearFd_eq,
              clearItems_clearItems]
            rfl
          have hs' : Segment (clearItems m fd (c :: dups c)).next
              (clearItems m fd (c :: dups c)).prev c l queueHead := by
            rw [next_clearItems, prev_clearItems]
            apply hs
          have hc' : ∀ p ∈ l, Chain (clearItems m fd (c :: dups c)).duplicates
              ((clearItems m fd (c :: dups c)).duplicates p) (dups p) := by
            rw [duplicates_clearItems]
            intro p hp
            apply hc p (List.mem_cons_of_mem c hp)
          have hrest := ih hs' hhead.2 hc' (Nat.le_of_succ_le_succ hrounds)
            (fun p hp => hdupes p (List.mem_cons_of_mem c hp))
          have hne : c ≠ queueHead := fun e => hhead.1 e.symm
          rw [Heap.next] at hrest
          rw [hnext, clearList, if_neg hne]
          dsimp only
          rw [hloop, Option.bind_eq_bind, Option.bind_some, hrest, clearItems_clearItems]
          rfl

end RequestQueue

namespace Represents

open RequestQueue

variable {q : RequestQueue} {v : View} {fd : ℤ} {l : List Ptr} {rounds : ℕ}

/-- What the queue represents does not change when a file descriptor is cleared. -/
theorem clearItems (hr : Represents q v) :
  Represents { q with heap := clearItems q.heap fd l } v
  := by
  apply hr.congr
  case hindex => rfl
  case hnum =>
    intro list
    cases list <;> rfl
  all_goals
    intro a _
    dsimp only
    rw [clearItems_apply]
    try rfl

/-- The loops over some of the lists clear the items on them and their duplicates. -/
theorem clearLists (hr : Represents q v) (hlists : ∀ list, (v.lists list).length ≤ rounds)
    (hdups : ∀ p, v.Listed p → (v.dups p).length ≤ rounds) (lists : List ListHead) :
  lists.foldlM (fun m list => clearList fd (.head list) rounds rounds m (m (.head list)).next)
      q.heap
    = some (RequestQueue.clearItems q.heap fd
        (lists.flatMap fun list => visited v.dups (v.lists list)))
  := by
  induction lists generalizing q with
  | nil =>
      have hm : RequestQueue.clearItems q.heap fd [] = q.heap := by
        funext x
        simp [RequestQueue.clearItems]
      rw [List.flatMap_nil, hm]
      rfl
  | cons list lists ih =>
      have hring := hr.rings.ring list
      have hlist : clearList fd (.head list) rounds rounds q.heap (q.heap (.head list)).next
          = some (RequestQueue.clearItems q.heap fd (visited v.dups (v.lists list))) := by
        apply clearList_eq hring.links (List.nodup_cons.mp hring.nodup).1
        · intro p hp
          apply hr.chain ⟨list, hp⟩
        · apply hlists
        · intro p hp
          apply hdups p ⟨list, hp⟩
      have hrest := ih (q := { q with
        heap := RequestQueue.clearItems q.heap fd (visited v.dups (v.lists list)) }) hr.clearItems
      rw [List.foldlM_cons, hlist, Option.bind_eq_bind, Option.bind_some, hrest,
        clearItems_clearItems]
      rfl

/-- With enough rounds, clearing a file descriptor ends, and clears it from the items on the
lists that are looked through and from their duplicates. -/
theorem clearRequestsByFd (hr : Represents q v) (hlists : ∀ list, (v.lists list).length ≤ rounds)
    (hdups : ∀ p, v.Listed p → (v.dups p).length ≤ rounds) :
  q.requestQueueClearRequestsByFd rounds fd = some { q with
    heap := RequestQueue.clearItems q.heap fd
      (clearedLists.flatMap fun list => visited v.dups (v.lists list)) }
  := by
  rw [requestQueueClearRequestsByFd, hr.clearLists hlists hdups]
  rfl

end Represents
