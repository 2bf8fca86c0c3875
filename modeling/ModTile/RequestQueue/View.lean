import ModTile.Linked.Ring
import ModTile.RequestQueue.Index

/-!
# What the queue represents

A `View` is what the queue is for: six sequences of items, and for every item on them a
sequence of duplicates.  `Represents q v` relates the pointers, counters and buckets of the
queue `q` to the view `v`.  It holds the six circular lists with the items of the
sequences, counters that are the lengths of the sequences and stay within the limits, a
chain of duplicates at every item, and buckets whose entries are the items on the
sequences; and no two of these items have the same key.
-/

open Linked

namespace Heap

variable {m : Heap} {p a v : Ptr}

/-- The forward pointers of memory. -/
def next (m : Heap) : Ptr → Ptr := fun a => (m a).next

/-- The backward pointers of memory. -/
def prev (m : Heap) : Ptr → Ptr := fun a => (m a).prev

/-- The pointers to duplicates of memory. -/
def duplicates (m : Heap) : Ptr → Option Ptr := fun a => (m a).duplicates

@[simp]
theorem setNext_apply :
  m.setNext p v a = { m a with next := if a = p then v else (m a).next }
  := by
  by_cases h : a = p
  · subst h
    simp [setNext]
  · simp [setNext, h]

@[simp]
theorem setPrev_apply :
  m.setPrev p v a = { m a with prev := if a = p then v else (m a).prev }
  := by
  by_cases h : a = p
  · subst h
    simp [setPrev]
  · simp [setPrev, h]

@[simp]
theorem setDuplicates_apply {v : Option Ptr} :
  m.setDuplicates p v a = { m a with duplicates := if a = p then v else (m a).duplicates }
  := by
  by_cases h : a = p
  · subst h
    simp [setDuplicates]
  · simp [setDuplicates, h]

@[simp]
theorem setInQueue_apply {v : QueueEnum} :
  m.setInQueue p v a = { m a with inQueue := if a = p then v else (m a).inQueue }
  := by
  by_cases h : a = p
  · subst h
    simp [setInQueue]
  · simp [setInQueue, h]

@[simp]
theorem setOriginatedQueue_apply {v : QueueEnum} :
  m.setOriginatedQueue p v a
    = { m a with originatedQueue := if a = p then v else (m a).originatedQueue }
  := by
  by_cases h : a = p
  · subst h
    simp [setOriginatedQueue]
  · simp [setOriginatedQueue, h]

@[simp]
theorem setFd_apply {v : ℤ} :
  m.setFd p v a = { m a with fd := if a = p then v else (m a).fd }
  := by
  by_cases h : a = p
  · subst h
    simp [setFd]
  · simp [setFd, h]

end Heap

namespace RequestQueue

variable {q : RequestQueue} {n : ℕ} {item : Item} {x : Ptr}

@[simp]
theorem heap_write_self :
  (q.write n item).heap (.item n) = item
  := Function.update_self ..

theorem heap_write_of_ne (h : x ≠ .item n) :
  (q.write n item).heap x = q.heap x
  := Function.update_of_ne h ..

end RequestQueue

/-- Six sequences of items, and a sequence of duplicates for every item. -/
structure View where
  lists : ListHead → List Ptr
  dups : Ptr → List Ptr

namespace View

/-- The item is on one of the six sequences. -/
def Listed (v : View) (p : Ptr) : Prop := ∃ list, p ∈ v.lists list

/-- The item is on one of the six sequences, or a duplicate of one that is. -/
def Held (v : View) (p : Ptr) : Prop := v.Listed p ∨ ∃ t, v.Listed t ∧ p ∈ v.dups t

/-- The address is that of a list head or of an item that is held. -/
def Uses (v : View) (p : Ptr) : Prop := (∃ list, p = .head list) ∨ v.Held p

end View

/-- The largest number of items on a list. -/
def ListHead.limit : ListHead → ℕ
  | .dirtyHead => dirtyLimit
  | _ => reqLimit

/-- The queue holds the sequences of the view. -/
structure Represents (q : RequestQueue) (v : View) : Prop where
  /-- The six lists are circular lists of the items of the sequences and share no item. -/
  rings : Rings q.heap.next q.heap.prev Ptr.head v.lists
  /-- An item on a list names that list. -/
  inQueue : ∀ {list p}, p ∈ v.lists list → (q.heap p).inQueue = list.inQueue
  /-- Only allocated items are on the lists and among the duplicates. -/
  isItem : ∀ {p}, v.Held p → ∃ n, p = .item n
  /-- The counters are the lengths of the lists. -/
  num : ∀ {list}, list ≠ .renderHead → q.num list = (v.lists list).length
  /-- The lengths stay within the limits. -/
  limit : ∀ {list}, list ≠ .renderHead → (v.lists list).length ≤ list.limit
  /-- The duplicates of an item on a list are chained to it. -/
  chain : ∀ {p}, v.Listed p → Chain q.heap.duplicates (q.heap p).duplicates (v.dups p)
  /-- A duplicate is marked as one. -/
  dupQueue : ∀ {p d}, v.Listed p → d ∈ v.dups p → (q.heap d).inQueue = .queueDuplicate
  /-- A duplicate has the key of the item it is chained to. -/
  dupKey : ∀ {p d}, v.Listed p → d ∈ v.dups p → (q.heap d).key = (q.heap p).key
  /-- Two items on lists have different keys. -/
  keyUnique : ∀ {p p'}, v.Listed p → v.Listed p' → (q.heap p).key = (q.heap p').key → p = p'
  /-- A bucket whose inline place is empty has no nodes. -/
  bucket : ∀ k, (q.itemHashidx k).WellFormed
  /-- No item is twice in a bucket. -/
  bucketNodup : ∀ k, (q.itemHashidx k).entries.Nodup
  /-- The entries of a bucket are the items on lists that belong to it. -/
  mem_bucket : ∀ {k p}, p ∈ (q.itemHashidx k).entries ↔
    v.Listed p ∧ RequestQueue.calcHashKey (q.heap p) = k

namespace Represents

open RequestQueue

variable {q : RequestQueue} {v : View} {p p' d : Ptr} {list list' : ListHead}

/-- An item on a list is not a duplicate. -/
theorem not_dup (hr : Represents q v) (h : v.Listed p) (h' : v.Listed p') :
  p ∉ v.dups p'
  := by
  intro hd
  obtain ⟨list, h⟩ := h
  have hq := hr.dupQueue h' hd
  rw [hr.inQueue h] at hq
  cases list <;> simp [ListHead.inQueue] at hq

/-- A duplicate belongs to one item at most. -/
theorem dup_unique (hr : Represents q v) (h : v.Listed p) (h' : v.Listed p') (hd : d ∈ v.dups p)
    (hd' : d ∈ v.dups p') :
  p = p'
  := by
  apply hr.keyUnique h h'
  rw [← hr.dupKey h hd, hr.dupKey h' hd']

/-- An allocated item that is not held is not on a list. -/
theorem not_mem_list {n : ℕ} (hfree : ¬ v.Held (.item n)) :
  Ptr.item n ∉ Ptr.head list :: v.lists list
  := by
  intro h
  rcases List.mem_cons.mp h with h | h
  · simp at h
  · apply hfree (Or.inl ⟨list, h⟩)

/-- The lookup finds the item on a list with the given key. -/
theorem lookup_eq_some_iff (hr : Represents q v) (item : Item) :
  lookupItemIdx q item = some p ↔ v.Listed p ∧ item.key = (q.heap p).key
  := by
  rw [lookupItemIdx_eq (hr.bucket _)]
  constructor
  · intro h
    have hsame := List.find?_some h
    have hmem := List.mem_of_find?_eq_some h
    exact ⟨(hr.mem_bucket.mp hmem).1, sameItem_iff.mp hsame⟩
  · rintro ⟨hl, hkey⟩
    have hmem : p ∈ (q.itemHashidx (calcHashKey item)).entries :=
      hr.mem_bucket.mpr ⟨hl, (calcHashKey_congr hkey).symm⟩
    cases hf : (q.itemHashidx (calcHashKey item)).entries.find?
        (fun test => sameItem item (q.heap test)) with
    | none =>
        have hno := List.find?_eq_none.mp hf p hmem
        rw [sameItem_iff] at hno
        apply absurd hkey hno
    | some p' =>
        have hsame := List.find?_some hf
        rw [sameItem_iff] at hsame
        have hmem' := (hr.mem_bucket.mp (List.mem_of_find?_eq_some hf)).1
        rw [hr.keyUnique hmem' hl (hsame.symm.trans hkey)]

/-- The lookup finds nothing exactly when no item on a list has the given key. -/
theorem lookup_eq_none_iff (hr : Represents q v) (item : Item) :
  lookupItemIdx q item = none ↔ ∀ p, v.Listed p → item.key ≠ (q.heap p).key
  := by
  constructor
  · intro h p hl hkey
    have := (hr.lookup_eq_some_iff item).mpr ⟨hl, hkey⟩
    rw [h] at this
    simp at this
  · intro h
    cases hf : lookupItemIdx q item with
    | none => rfl
    | some p =>
        obtain ⟨hl, hkey⟩ := (hr.lookup_eq_some_iff item).mp hf
        apply absurd hkey (h p hl)

/-- What the queue represents depends on the pointers, the marks and the keys of the list heads
and of the items that are held, on the index and on the counters. -/
theorem congr {q' : RequestQueue} (hr : Represents q v)
    (hnext : ∀ a, v.Uses a → (q'.heap a).next = (q.heap a).next)
    (hprev : ∀ a, v.Uses a → (q'.heap a).prev = (q.heap a).prev)
    (hdup : ∀ a, v.Uses a → (q'.heap a).duplicates = (q.heap a).duplicates)
    (hqueue : ∀ a, v.Uses a → (q'.heap a).inQueue = (q.heap a).inQueue)
    (hkey : ∀ a, v.Uses a → (q'.heap a).key = (q.heap a).key)
    (hindex : q'.itemHashidx = q.itemHashidx) (hnum : ∀ list, q'.num list = q.num list) :
  Represents q' v
  := by
  have huses : ∀ {list a}, a ∈ Ptr.head list :: v.lists list → v.Uses a := by
    intro list a ha
    rcases List.mem_cons.mp ha with rfl | ha
    · exact Or.inl ⟨list, rfl⟩
    · exact Or.inr (Or.inl ⟨list, ha⟩)
  have hlisted : ∀ {a}, v.Listed a → v.Uses a := fun h => Or.inr (Or.inl h)
  have hdups : ∀ {t a}, v.Listed t → a ∈ v.dups t → v.Uses a :=
    fun ht h => Or.inr (Or.inr ⟨_, ht, h⟩)
  constructor
  case rings =>
    apply hr.rings.congr
    · intro list x hx
      apply hnext x (huses hx)
    · intro list x hx
      apply hprev x (huses hx)
  case inQueue =>
    intro list p h
    rw [hqueue p (hlisted ⟨list, h⟩), hr.inQueue h]
  case isItem =>
    intro p h
    apply hr.isItem h
  case num =>
    intro list h
    rw [hnum, hr.num h]
  case limit =>
    intro list h
    apply hr.limit h
  case chain =>
    intro p h
    rw [hdup p (hlisted h)]
    apply (hr.chain h).congr
    intro x hx
    apply hdup x (hdups h hx)
  case dupQueue =>
    intro p d h hd
    rw [hqueue d (hdups h hd), hr.dupQueue h hd]
  case dupKey =>
    intro p d h hd
    rw [hkey d (hdups h hd), hkey p (hlisted h), hr.dupKey h hd]
  case keyUnique =>
    intro p p' h h' hk
    rw [hkey p (hlisted h), hkey p' (hlisted h')] at hk
    apply hr.keyUnique h h' hk
  case bucket =>
    rw [hindex]
    apply hr.bucket
  case bucketNodup =>
    rw [hindex]
    apply hr.bucketNodup
  case mem_bucket =>
    intro k p
    rw [hindex, hr.mem_bucket]
    constructor
    · rintro ⟨h, hh⟩
      rw [calcHashKey_congr (hkey p (hlisted h))]
      exact ⟨h, hh⟩
    · rintro ⟨h, hh⟩
      rw [calcHashKey_congr (hkey p (hlisted h))] at hh
      exact ⟨h, hh⟩

/-- Memory that the queue does not use can be written. -/
theorem write (hr : Represents q v) {n : ℕ} (hfree : ¬ v.Held (.item n)) (item : Item) :
  Represents (q.write n item) v
  := by
  have hne : ∀ a, v.Uses a → (q.write n item).heap a = q.heap a := by
    intro a ha
    apply heap_write_of_ne
    rintro rfl
    rcases ha with ⟨list, h⟩ | h
    · simp at h
    · apply hfree h
  apply hr.congr
  case hindex => rfl
  case hnum =>
    intro list
    cases list <;> rfl
  all_goals
    intro a ha
    rw [hne a ha]

end Represents
