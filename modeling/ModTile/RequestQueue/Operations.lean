import ModTile.RequestQueue.View

/-!
# The operations on the view

Every operation of the queue does to the pointers what a simple operation on the sequences
does to the view.  Adding a request appends it to a sequence or to the duplicates of an
item, fetching moves the first item of a sequence to the front of the render sequence, and
removing takes an item out of it.
-/

open Linked

namespace Heap

variable {m : Heap} {p a : Ptr} {list : ListHead}

/-- Linking an item in at the end of a list writes four pointers. -/
theorem linkLast_apply :
  RequestQueue.linkLast m list p a = { m a with
    next := Function.update (Function.update m.next p (.head list)) (m.prev (.head list)) p a
    prev := Function.update (Function.update m.prev p (m.prev (.head list))) (.head list) p a }
  := by
  simp [RequestQueue.linkLast, Function.update_apply, next, prev]

/-- Unlinking an item writes two pointers. -/
theorem unlink_apply :
  RequestQueue.unlink m p a = { m a with
    next := Function.update m.next (m.prev p) (m.next p) a
    prev := Function.update m.prev (m.next p) (m.prev p) a }
  := by
  simp [RequestQueue.unlink, Function.update_apply, next, prev]

/-- Linking an item in at the front of the render list writes four pointers and the name of the
list. -/
theorem linkRender_apply (hp : p ≠ .head .renderHead) :
  RequestQueue.linkRender m p a = { m a with
    next := Function.update (Function.update m.next p (m.next (.head .renderHead)))
      (.head .renderHead) p a
    prev := Function.update (Function.update m.prev p (.head .renderHead))
      (m.next (.head .renderHead)) p a
    inQueue := if a = p then .queueRender else (m a).inQueue }
  := by
  simp [RequestQueue.linkRender, Function.update_apply, next, prev, hp.symm]

end Heap

namespace View

variable {v : View} {p t a : Ptr} {list : ListHead}

/-- The item `p` is added at the end of a sequence, without duplicates. -/
def enqueue (v : View) (list : ListHead) (p : Ptr) : View where
  lists := Function.update v.lists list (v.lists list ++ [p])
  dups := Function.update v.dups p []

/-- The item `p` becomes the first duplicate of `t`. -/
def attach (v : View) (t p : Ptr) : View :=
  { v with dups := Function.update v.dups t (p :: v.dups t) }

/-- The item `p` is taken out of a sequence. -/
def erase (v : View) (list : ListHead) (p : Ptr) : View :=
  { v with lists := Function.update v.lists list ((v.lists list).erase p) }

/-- The item `p` is added in front of the render sequence. -/
def render (v : View) (p : Ptr) : View :=
  { v with lists := Function.update v.lists .renderHead (p :: v.lists .renderHead) }

theorem lists_erase_self :
  (v.erase list p).lists list = (v.lists list).erase p
  := Function.update_self ..

theorem lists_erase_of_ne {list' : ListHead} (h : list' ≠ list) :
  (v.erase list p).lists list' = v.lists list'
  := Function.update_of_ne h ..

theorem mem_of_mem_lists_erase {list' : ListHead} (h : a ∈ (v.erase list p).lists list') :
  a ∈ v.lists list'
  := by
  by_cases hl : list' = list
  · subst hl
    rw [lists_erase_self] at h
    apply List.mem_of_mem_erase h
  · rwa [lists_erase_of_ne hl] at h

theorem lists_render_self :
  (v.render p).lists .renderHead = p :: v.lists .renderHead
  := by simp [render]

theorem lists_render_of_ne {list' : ListHead} (h : list' ≠ .renderHead) :
  (v.render p).lists list' = v.lists list'
  := Function.update_of_ne h ..

theorem listed_render :
  (v.render p).Listed a ↔ v.Listed a ∨ a = p
  := by
  constructor
  · rintro ⟨list', h⟩
    by_cases hl : list' = .renderHead
    · subst hl
      rw [lists_render_self, List.mem_cons] at h
      rcases h with h | h
      · exact Or.inr h
      · exact Or.inl ⟨_, h⟩
    · rw [lists_render_of_ne hl] at h
      exact Or.inl ⟨_, h⟩
  · rintro (⟨list', h⟩ | rfl)
    · use list'
      by_cases hl : list' = .renderHead
      · subst hl
        rw [lists_render_self]
        apply List.mem_cons_of_mem _ h
      · rwa [lists_render_of_ne hl]
    · use .renderHead
      rw [lists_render_self]
      apply List.mem_cons_self

theorem dups_attach_self :
  (v.attach t p).dups t = p :: v.dups t
  := Function.update_self ..

theorem dups_attach_of_ne (h : a ≠ t) :
  (v.attach t p).dups a = v.dups a
  := Function.update_of_ne h ..

end View

namespace RequestQueue

variable {q : RequestQueue} {list list' : ListHead} {n : ℕ}

@[simp]
theorem heap_setNum :
  (q.setNum list n).heap = q.heap
  := by cases list <;> rfl

@[simp]
theorem itemHashidx_setNum :
  (q.setNum list n).itemHashidx = q.itemHashidx
  := by cases list <;> rfl

@[simp]
theorem stats_setNum :
  (q.setNum list n).stats = q.stats
  := by cases list <;> rfl

/-- Writing the counter of a list leaves the other counters. -/
theorem num_setNum (h : list ≠ .renderHead) :
  (q.setNum list n).num list' = if list' = list then n else q.num list'
  := by cases list <;> cases list' <;> simp [setNum, num] at h ⊢

end RequestQueue

namespace View

variable {v : View} {p t a : Ptr} {list : ListHead}

theorem lists_enqueue_self :
  (v.enqueue list p).lists list = v.lists list ++ [p]
  := Function.update_self ..

theorem lists_enqueue_of_ne {list' : ListHead} (h : list' ≠ list) :
  (v.enqueue list p).lists list' = v.lists list'
  := Function.update_of_ne h ..

theorem dups_enqueue_self :
  (v.enqueue list p).dups p = []
  := Function.update_self ..

theorem dups_enqueue_of_ne (h : a ≠ p) :
  (v.enqueue list p).dups a = v.dups a
  := Function.update_of_ne h ..

theorem listed_enqueue :
  (v.enqueue list p).Listed a ↔ v.Listed a ∨ a = p
  := by
  constructor
  · rintro ⟨list', h⟩
    by_cases hl : list' = list
    · subst hl
      simp only [enqueue, Function.update_self, List.mem_append, List.mem_singleton] at h
      rcases h with h | h
      · exact Or.inl ⟨list', h⟩
      · exact Or.inr h
    · simp only [enqueue, Function.update_of_ne hl] at h
      exact Or.inl ⟨list', h⟩
  · rintro (⟨list', h⟩ | rfl)
    · use list'
      by_cases hl : list' = list
      · subst hl
        simp [enqueue, h]
      · simpa [enqueue, Function.update_of_ne hl] using h
    · use list
      simp [enqueue]

/-- Adding an item to a sequence adds it to the items of the view. -/
theorem held_enqueue (hp : ¬ v.Held p) :
  (v.enqueue list p).Held a ↔ v.Held a ∨ a = p
  := by
  constructor
  · rintro (h | ⟨t, ht, h⟩)
    · rcases listed_enqueue.mp h with h | h
      · exact Or.inl (Or.inl h)
      · exact Or.inr h
    · rcases listed_enqueue.mp ht with hl | rfl
      · have htp : t ≠ p := by
          rintro rfl
          apply hp (Or.inl hl)
        simp only [enqueue, Function.update_of_ne htp] at h
        exact Or.inl (Or.inr ⟨t, hl, h⟩)
      · simp [enqueue] at h
  · rintro ((h | ⟨t, ht, h⟩) | rfl)
    · exact Or.inl (listed_enqueue.mpr (Or.inl h))
    · have htp : t ≠ p := by
        rintro rfl
        apply hp (Or.inl ht)
      right
      use t, listed_enqueue.mpr (Or.inl ht)
      simpa [enqueue, Function.update_of_ne htp] using h
    · exact Or.inl (listed_enqueue.mpr (Or.inr rfl))

/-- Adding a duplicate of a listed item adds it to the items of the view. -/
theorem held_attach (ht : v.Listed t) :
  (v.attach t p).Held a ↔ v.Held a ∨ a = p
  := by
  constructor
  · rintro (h | ⟨x, hx, h⟩)
    · exact Or.inl (Or.inl h)
    · by_cases hxt : x = t
      · subst hxt
        rw [dups_attach_self, List.mem_cons] at h
        rcases h with h | h
        · exact Or.inr h
        · exact Or.inl (Or.inr ⟨x, hx, h⟩)
      · rw [dups_attach_of_ne hxt] at h
        exact Or.inl (Or.inr ⟨x, hx, h⟩)
  · rintro ((h | ⟨x, hx, h⟩) | rfl)
    · exact Or.inl h
    · right
      use x, hx
      by_cases hxt : x = t
      · subst hxt
        rw [dups_attach_self]
        apply List.mem_cons_of_mem _ h
      · rwa [dups_attach_of_ne hxt]
    · right
      use t, ht
      rw [dups_attach_self]
      apply List.mem_cons_self

end View

namespace RequestQueue

variable {q : RequestQueue} {v : View} {list list' : ListHead} {p a : Ptr}

/-- Enqueueing an item writes its name of the list, and the pointers at the end of the list. -/
theorem heap_enqueue :
  (q.enqueue list p).heap a = { q.heap a with
    next := Function.update (Function.update q.heap.next p (.head list))
      (q.heap.prev (.head list)) p a
    prev := Function.update (Function.update q.heap.prev p (q.heap.prev (.head list)))
      (.head list) p a
    inQueue := if a = p then list.inQueue else (q.heap a).inQueue
    originatedQueue := if a = p then list.inQueue else (q.heap a).originatedQueue }
  := by
  have hnext : ((q.heap.setInQueue p list.inQueue).setOriginatedQueue p list.inQueue).next
      = q.heap.next := by
    funext b
    simp [Heap.next]
  have hprev : ((q.heap.setInQueue p list.inQueue).setOriginatedQueue p list.inQueue).prev
      = q.heap.prev := by
    funext b
    simp [Heap.prev]
  simp [enqueue, insertItemIdx, Heap.linkLast_apply, hnext, hprev]

/-- Removing an item unlinks it and takes the first entry for its key out of its bucket. -/
theorem removeRequest_eq {renderTime : ℤ} {q' : RequestQueue}
    (hq : q.requestQueueRemoveRequest p renderTime = some q') :
  q'.heap = unlink q.heap p ∧
    q'.itemHashidx = Function.update q.itemHashidx (calcHashKey (q.heap p))
      ((q.itemHashidx (calcHashKey (q.heap p))).remove
        fun test => sameItem (q.heap p) (q.heap test)) ∧
    ∀ list, q'.num list = q.num list
  := by
  simp only [requestQueueRemoveRequest, Option.bind_eq_bind, Option.pure_def,
    Option.bind_eq_some_iff, Option.some.injEq] at hq
  obtain ⟨stats, -, rfl⟩ := hq
  have hkeys : ∀ x, (unlink q.heap p x).key = (q.heap x).key := by
    intro x
    rw [Heap.unlink_apply]
    rfl
  have hsame : ∀ test, sameItem (unlink q.heap p p) (unlink q.heap p test)
      = sameItem (q.heap p) (q.heap test) := by
    intro test
    rw [Bool.eq_iff_iff, sameItem_iff, sameItem_iff, hkeys, hkeys]
  refine ⟨rfl, ?_, ?_⟩
  · simp only [removeItemIdx, hsame, calcHashKey_congr (hkeys p)]
  · intro list
    cases list <;> rfl

theorem itemHashidx_fetchFrom :
  (q.fetchFrom list).2.itemHashidx = q.itemHashidx
  := by simp [fetchFrom]

theorem fd_fetchFrom :
  ((q.fetchFrom list).2.heap a).fd = (q.heap a).fd
  := by simp [fetchFrom, linkRender, unlink]

theorem duplicates_fetchFrom :
  ((q.fetchFrom list).2.heap a).duplicates = (q.heap a).duplicates
  := by simp [fetchFrom, linkRender, unlink]

/-- Attaching a duplicate writes two pointers and the mark of the duplicate. -/
theorem heap_attach {t : Ptr} :
  (q.attach t p).heap a = { q.heap a with
    duplicates := if a = t then some p else if a = p then (q.heap t).duplicates
      else (q.heap a).duplicates
    inQueue := if a = p then .queueDuplicate else (q.heap a).inQueue }
  := by
  simp [attach]

/-- Enqueueing an item adds it to its bucket. -/
theorem itemHashidx_enqueue :
  (q.enqueue list p).itemHashidx = Function.update q.itemHashidx (calcHashKey (q.heap p))
    ((q.itemHashidx (calcHashKey (q.heap p))).insert p)
  := by
  have hkey : calcHashKey (linkLast ((q.heap.setInQueue p list.inQueue).setOriginatedQueue p
      list.inQueue) list p p) = calcHashKey (q.heap p) := by
    apply calcHashKey_congr
    rw [Heap.linkLast_apply]
    simp [Item.key]
  simp only [enqueue, insertItemIdx, itemHashidx_setNum, hkey]

end RequestQueue

namespace Represents

open RequestQueue

variable {q : RequestQueue} {v : View} {list list' : ListHead} {p t a : Ptr} {n : ℕ}

/-- Adding an item that is not yet held, and whose key no listed item has, to a list with room
for it. -/
theorem enqueue (hr : Represents q v) (hfree : ¬ v.Held (.item n))
    (hdup : (q.heap (.item n)).duplicates = none) (hlist : list ≠ .renderHead)
    (hlimit : (v.lists list).length < list.limit)
    (hkey : ∀ t, v.Listed t → (q.heap (.item n)).key ≠ (q.heap t).key) :
  Represents (q.enqueue list (.item n)) (v.enqueue list (.item n))
  := by
  have hne : ∀ {x}, v.Held x → x ≠ .item n := by
    rintro x hx rfl
    apply hfree hx
  have hkeys : ∀ x, ((q.enqueue list (.item n)).heap x).key = (q.heap x).key := by
    intro x
    rw [heap_enqueue]
    rfl
  have hdups : ∀ {x}, v.Listed x → (v.enqueue list (.item n)).dups x = v.dups x := by
    intro x hx
    apply Function.update_of_ne (hne (Or.inl hx))
  constructor
  case rings =>
    have hnext : (q.enqueue list (.item n)).heap.next = Function.update
        (Function.update q.heap.next (.item n) (.head list)) (q.heap.prev (.head list))
        (.item n) := by
      funext x
      simp only [Heap.next, heap_enqueue]
    have hprev : (q.enqueue list (.item n)).heap.prev = Function.update
        (Function.update q.heap.prev (.item n) (q.heap.prev (.head list))) (.head list)
        (.item n) := by
      funext x
      simp only [Heap.prev, heap_enqueue]
    rw [hnext, hprev]
    apply hr.rings.insert_last
    intro list'
    apply not_mem_list hfree
  case inQueue =>
    intro list' p h
    rw [heap_enqueue]
    by_cases hp : p = .item n
    · subst hp
      by_cases hl : list' = list
      · simp [hl]
      · simp only [View.enqueue, Function.update_of_ne hl] at h
        apply absurd (Or.inl ⟨list', h⟩) hfree
    · have hmem : p ∈ v.lists list' := by
        by_cases hl : list' = list
        · subst hl
          simpa [View.enqueue, hp] using h
        · simpa [View.enqueue, Function.update_of_ne hl] using h
      simp [hp, hr.inQueue hmem]
  case isItem =>
    intro p h
    rcases (View.held_enqueue hfree).mp h with h | rfl
    · apply hr.isItem h
    · use n
  case num =>
    intro list' hl'
    have hnum : (q.enqueue list (.item n)).num list'
        = if list' = list then q.num list + 1 else q.num list' := by
      rw [← num_setNum hlist]
      cases list' <;> rfl
    rw [hnum]
    by_cases hl : list' = list
    · subst hl
      simp [View.enqueue, hr.num hlist]
    · simp [View.enqueue, hl, hr.num hl']
  case limit =>
    intro list' hl'
    by_cases hl : list' = list
    · subst hl
      simp only [View.enqueue, Function.update_self, List.length_append, List.length_singleton]
      omega
    · simpa [View.enqueue, hl] using hr.limit hl'
  case chain =>
    intro p h
    have hchain : (q.enqueue list (.item n)).heap.duplicates = q.heap.duplicates := by
      funext x
      simp only [Heap.duplicates, heap_enqueue]
    rw [hchain, heap_enqueue]
    rcases View.listed_enqueue.mp h with h | rfl
    · rw [hdups h]
      apply hr.chain h
    · simpa [View.enqueue, Chain] using hdup
  case dupQueue =>
    intro p d h hd
    rcases View.listed_enqueue.mp h with h | rfl
    · rw [hdups h] at hd
      simp [heap_enqueue, hne (Or.inr ⟨p, h, hd⟩), hr.dupQueue h hd]
    · simp [View.enqueue] at hd
  case dupKey =>
    intro p d h hd
    rcases View.listed_enqueue.mp h with h | rfl
    · rw [hdups h] at hd
      rw [hkeys, hkeys, hr.dupKey h hd]
    · simp [View.enqueue] at hd
  case keyUnique =>
    intro p p' h h' hk
    rw [hkeys, hkeys] at hk
    rcases View.listed_enqueue.mp h with h | rfl
    · rcases View.listed_enqueue.mp h' with h' | rfl
      · apply hr.keyUnique h h' hk
      · apply absurd hk.symm (hkey p h)
    · rcases View.listed_enqueue.mp h' with h' | rfl
      · apply absurd hk (hkey p' h')
      · rfl
  case bucket =>
    intro k
    rw [itemHashidx_enqueue]
    by_cases hk : k = calcHashKey (q.heap (.item n))
    · subst hk
      simp [ItemIdx.WellFormed.insert]
    · simp [hk, hr.bucket]
  case bucketNodup =>
    intro k
    rw [itemHashidx_enqueue]
    by_cases hk : k = calcHashKey (q.heap (.item n))
    · subst hk
      simp only [Function.update_self, ItemIdx.entries_insert (hr.bucket _)]
      apply List.Nodup.append (hr.bucketNodup _) (List.nodup_singleton _)
      intro x hx hx'
      apply hne (Or.inl (hr.mem_bucket.mp hx).1) (List.mem_singleton.mp hx')
    · simp [hk, hr.bucketNodup]
  case mem_bucket =>
    intro k p
    rw [itemHashidx_enqueue, View.listed_enqueue, calcHashKey_congr (hkeys p)]
    by_cases hk : k = calcHashKey (q.heap (.item n))
    · subst hk
      simp only [Function.update_self, ItemIdx.entries_insert (hr.bucket _), List.mem_append,
        List.mem_singleton, hr.mem_bucket]
      constructor
      · rintro (⟨h, hh⟩ | rfl)
        · exact ⟨Or.inl h, hh⟩
        · exact ⟨Or.inr rfl, rfl⟩
      · rintro ⟨h | h, hh⟩
        · exact Or.inl ⟨h, hh⟩
        · exact Or.inr h
    · rw [Function.update_of_ne hk, hr.mem_bucket]
      constructor
      · rintro ⟨h, hh⟩
        exact ⟨Or.inl h, hh⟩
      · rintro ⟨h | rfl, hh⟩
        · exact ⟨h, hh⟩
        · apply absurd hh.symm hk

/-- Adding an item that is not yet held to the duplicates of a listed item with its key. -/
theorem attach (hr : Represents q v) (hfree : ¬ v.Held (.item n)) (ht : v.Listed t)
    (hkey : (q.heap (.item n)).key = (q.heap t).key) :
  Represents (q.attach t (.item n)) (v.attach t (.item n))
  := by
  have hne : ∀ {x}, v.Held x → x ≠ .item n := by
    rintro x hx rfl
    apply hfree hx
  have hkeys : ∀ x, ((q.attach t (.item n)).heap x).key = (q.heap x).key := by
    intro x
    rw [heap_attach]
    rfl
  have hdups : ∀ {x d}, v.Listed x → d ∈ (v.attach t (.item n)).dups x →
      d ∈ v.dups x ∨ (x = t ∧ d = .item n) := by
    intro x d hx hd
    by_cases hxt : x = t
    · subst hxt
      rw [View.dups_attach_self, List.mem_cons] at hd
      tauto
    · rw [View.dups_attach_of_ne hxt] at hd
      exact Or.inl hd
  have hlink : ∀ {x}, v.Listed x → ∀ d ∈ v.dups x,
      (q.attach t (.item n)).heap.duplicates d = q.heap.duplicates d := by
    intro x hx d hd
    have hdt : d ≠ t := by
      rintro rfl
      apply hr.not_dup ht hx hd
    simp [Heap.duplicates, heap_attach, hdt, hne (Or.inr ⟨x, hx, hd⟩)]
  constructor
  case rings =>
    apply hr.rings.congr
    · intro list x _
      simp [Heap.next, heap_attach]
    · intro list x _
      simp [Heap.prev, heap_attach]
  case inQueue =>
    intro list p h
    simp [heap_attach, hne (Or.inl ⟨list, h⟩), hr.inQueue h]
  case isItem =>
    rintro p (h | ⟨x, hx, h⟩)
    · apply hr.isItem (Or.inl h)
    · rcases hdups hx h with h | ⟨-, rfl⟩
      · apply hr.isItem (Or.inr ⟨x, hx, h⟩)
      · use n
  case num =>
    intro list h
    apply Eq.trans _ (hr.num h)
    cases list <;> rfl
  case limit =>
    intro list h
    apply hr.limit h
  case chain =>
    intro p h
    by_cases hpt : p = t
    · subst hpt
      have hp := hne (Or.inl h)
      rw [View.dups_attach_self]
      constructor
      · simp [heap_attach, hp]
      · have hlast : (q.attach p (.item n)).heap.duplicates (.item n) = (q.heap p).duplicates := by
          simp [Heap.duplicates, heap_attach, hp.symm]
        rw [hlast]
        apply (hr.chain h).congr (hlink h)
    · rw [View.dups_attach_of_ne hpt, heap_attach]
      simp only [hpt, hne (Or.inl h), if_false]
      apply (hr.chain h).congr (hlink h)
  case dupQueue =>
    intro p d h hd
    rcases hdups h hd with hd | ⟨-, rfl⟩
    · simp [heap_attach, hne (Or.inr ⟨p, h, hd⟩), hr.dupQueue h hd]
    · simp [heap_attach]
  case dupKey =>
    intro p d h hd
    rw [hkeys, hkeys]
    rcases hdups h hd with hd | ⟨rfl, rfl⟩
    · apply hr.dupKey h hd
    · apply hkey
  case keyUnique =>
    intro p p' h h' hk
    rw [hkeys, hkeys] at hk
    apply hr.keyUnique h h' hk
  case bucket => apply hr.bucket
  case bucketNodup => apply hr.bucketNodup
  case mem_bucket =>
    intro k p
    rw [calcHashKey_congr (hkeys p)]
    apply hr.mem_bucket

/-- Taking an item out of the list it is on leaves the other listed items. -/
theorem listed_erase (hr : Represents q v) (hp : p ∈ v.lists list) :
  (v.erase list p).Listed a ↔ v.Listed a ∧ a ≠ p
  := by
  have nodup := (List.nodup_cons.mp (hr.rings.ring list).nodup).2
  constructor
  · rintro ⟨list', h⟩
    by_cases hl : list' = list
    · subst hl
      rw [View.lists_erase_self, nodup.mem_erase_iff] at h
      exact ⟨⟨list', h.2⟩, h.1⟩
    · rw [View.lists_erase_of_ne hl] at h
      use ⟨list', h⟩
      rintro rfl
      apply hl (hr.rings.unique h hp)
  · rintro ⟨⟨list', h⟩, hne⟩
    use list'
    by_cases hl : list' = list
    · subst hl
      rw [View.lists_erase_self, nodup.mem_erase_iff]
      exact ⟨hne, h⟩
    · rwa [View.lists_erase_of_ne hl]

/-- An item on a list is an allocated one. -/
theorem ne_head (hr : Represents q v) (hp : v.Listed p) :
  p ≠ .head list
  := by
  rintro rfl
  obtain ⟨n, hn⟩ := hr.isItem (Or.inl hp)
  simp at hn

/-- Moving an item to the render list keeps the listed items. -/
theorem listed_fetch (hr : Represents q v) (hp : p ∈ v.lists list) :
  ((v.erase list p).render p).Listed a ↔ v.Listed a
  := by
  rw [View.listed_render, hr.listed_erase hp]
  constructor
  · rintro (h | rfl)
    · apply h.1
    · exact ⟨list, hp⟩
  · intro h
    by_cases ha : a = p
    · exact Or.inr ha
    · exact Or.inl ⟨h, ha⟩

/-- Fetching from a list with a first item returns that item and moves it to the render list. -/
theorem fetchFrom {rest : List Ptr} (hr : Represents q v) (hlist : list ≠ .renderHead)
    (hl : v.lists list = p :: rest) :
  (q.fetchFrom list).1 = p ∧ Represents (q.fetchFrom list).2 ((v.erase list p).render p)
  := by
  have hmem : p ∈ v.lists list := by
    rw [hl]
    apply List.mem_cons_self
  have hp : v.Listed p := ⟨list, hmem⟩
  have hfirst : (q.fetchFrom list).1 = p := by
    have hring := hr.rings.ring list
    rw [hl] at hring
    apply hring.next_head
  have hheap : ∀ x, (q.fetchFrom list).2.heap x = linkRender (unlink q.heap p) p x := by
    intro x
    have hfirst' : (q.heap (.head list)).next = p := hfirst
    simp [RequestQueue.fetchFrom, hfirst']
  have hrings := hr.rings.unlink hmem
  have hnotin : ∀ list', p ∉ Ptr.head list' :: (v.erase list p).lists list' := by
    intro list' h
    rcases List.mem_cons.mp h with h | h
    · apply hr.ne_head hp h
    · apply ((hr.listed_erase hmem).mp ⟨list', h⟩).2 rfl
  have hlisted : ∀ {x}, ((v.erase list p).render p).Listed x ↔ v.Listed x := hr.listed_fetch hmem
  have hkeys : ∀ x, ((q.fetchFrom list).2.heap x).key = (q.heap x).key := by
    intro x
    rw [hheap, Heap.linkRender_apply (hr.ne_head hp), Heap.unlink_apply]
    rfl
  have hdup : ∀ x, ((q.fetchFrom list).2.heap x).duplicates = (q.heap x).duplicates := by
    intro x
    rw [hheap, Heap.linkRender_apply (hr.ne_head hp), Heap.unlink_apply]
  have hqueue : ∀ x, ((q.fetchFrom list).2.heap x).inQueue
      = if x = p then .queueRender else (q.heap x).inQueue := by
    intro x
    rw [hheap, Heap.linkRender_apply (hr.ne_head hp), Heap.unlink_apply]
  use hfirst
  constructor
  case rings =>
    have hnext : (unlink q.heap p).next
        = Function.update q.heap.next (q.heap.prev p) (q.heap.next p) := by
      funext x
      simp only [Heap.next, Heap.unlink_apply]
    have hprev : (unlink q.heap p).prev
        = Function.update q.heap.prev (q.heap.next p) (q.heap.prev p) := by
      funext x
      simp only [Heap.prev, Heap.unlink_apply]
    rw [← hnext, ← hprev] at hrings
    have hnext' : (q.fetchFrom list).2.heap.next = Function.update (Function.update
        (unlink q.heap p).next p ((unlink q.heap p).next (.head .renderHead)))
        (.head .renderHead) p := by
      funext x
      rw [Heap.next, hheap, Heap.linkRender_apply (hr.ne_head hp)]
    have hprev' : (q.fetchFrom list).2.heap.prev = Function.update (Function.update
        (unlink q.heap p).prev p (.head .renderHead))
        ((unlink q.heap p).next (.head .renderHead)) p := by
      funext x
      rw [Heap.prev, hheap, Heap.linkRender_apply (hr.ne_head hp)]
    rw [hnext', hprev']
    apply hrings.insert_first hnotin
  case inQueue =>
    intro list' x h
    rw [hqueue]
    by_cases hx : x = p
    · subst hx
      have hl' : list' = .renderHead := by
        by_contra hne
        rw [View.lists_render_of_ne hne] at h
        apply ((hr.listed_erase hmem).mp ⟨list', h⟩).2 rfl
      simp [hl', ListHead.inQueue]
    · rw [if_neg hx]
      apply hr.inQueue
      by_cases hl' : list' = .renderHead
      · subst hl'
        rw [View.lists_render_self, View.lists_erase_of_ne hlist.symm] at h
        apply (List.mem_cons.mp h).resolve_left hx
      · rw [View.lists_render_of_ne hl'] at h
        apply View.mem_of_mem_lists_erase h
  case isItem =>
    rintro x (h | ⟨y, hy, h⟩)
    · apply hr.isItem (Or.inl (hlisted.mp h))
    · apply hr.isItem (Or.inr ⟨y, hlisted.mp hy, h⟩)
  case num =>
    intro list' hl'
    have hnum : (q.fetchFrom list).2.num list'
        = if list' = list then q.num list - 1 else q.num list' := by
      rw [← num_setNum hlist]
      cases list' <;> rfl
    rw [hnum, View.lists_render_of_ne hl']
    by_cases he : list' = list
    · subst he
      simp [View.lists_erase_self, hr.num hlist, hl]
    · simp [he, View.lists_erase_of_ne he, hr.num hl']
  case limit =>
    intro list' hl'
    rw [View.lists_render_of_ne hl']
    apply le_trans _ (hr.limit hl')
    by_cases he : list' = list
    · subst he
      rw [View.lists_erase_self]
      apply List.length_erase_le
    · rw [View.lists_erase_of_ne he]
  case chain =>
    intro x h
    rw [hdup]
    apply (hr.chain (hlisted.mp h)).congr
    intro y _
    apply hdup
  case dupQueue =>
    intro x d h hd
    have hdp : d ≠ p := by
      rintro rfl
      apply hr.not_dup hp (hlisted.mp h) hd
    rw [hqueue, if_neg hdp]
    apply hr.dupQueue (hlisted.mp h) hd
  case dupKey =>
    intro x d h hd
    rw [hkeys, hkeys]
    apply hr.dupKey (hlisted.mp h) hd
  case keyUnique =>
    intro x x' h h' hk
    rw [hkeys, hkeys] at hk
    apply hr.keyUnique (hlisted.mp h) (hlisted.mp h') hk
  case bucket =>
    rw [itemHashidx_fetchFrom]
    apply hr.bucket
  case bucketNodup =>
    rw [itemHashidx_fetchFrom]
    apply hr.bucketNodup
  case mem_bucket =>
    intro k x
    rw [itemHashidx_fetchFrom, hlisted, calcHashKey_congr (hkeys x)]
    apply hr.mem_bucket

/-- Removing an item takes it off the list it is on, whichever that is. -/
theorem rings_remove {renderTime : ℤ} {q' : RequestQueue} (hr : Represents q v)
    (hp : p ∈ v.lists list) (hq : q.requestQueueRemoveRequest p renderTime = some q') :
  Rings q'.heap.next q'.heap.prev Ptr.head (v.erase list p).lists
  := by
  obtain ⟨hheap, -, -⟩ := removeRequest_eq hq
  have hnext : q'.heap.next
      = Function.update q.heap.next (q.heap.prev p) (q.heap.next p) := by
    funext x
    simp only [Heap.next, hheap, Heap.unlink_apply]
  have hprev : q'.heap.prev
      = Function.update q.heap.prev (q.heap.next p) (q.heap.prev p) := by
    funext x
    simp only [Heap.prev, hheap, Heap.unlink_apply]
  rw [hnext, hprev]
  apply hr.rings.unlink hp

/-- Removing an item of the render list from that list and from the index. -/
theorem remove {renderTime : ℤ} {q' : RequestQueue} (hr : Represents q v)
    (hp : p ∈ v.lists .renderHead)
    (hq : q.requestQueueRemoveRequest p renderTime = some q') :
  Represents q' (v.erase .renderHead p)
  := by
  have hl : v.Listed p := ⟨_, hp⟩
  obtain ⟨hheap, hindex, hnum⟩ := removeRequest_eq hq
  have hlisted : ∀ {x}, (v.erase .renderHead p).Listed x ↔ v.Listed x ∧ x ≠ p :=
    hr.listed_erase hp
  have hkeys : ∀ x, (q'.heap x).key = (q.heap x).key := by
    intro x
    rw [hheap, Heap.unlink_apply]
    rfl
  have hdup : ∀ x, (q'.heap x).duplicates = (q.heap x).duplicates := by
    intro x
    rw [hheap, Heap.unlink_apply]
  have hqueue : ∀ x, (q'.heap x).inQueue = (q.heap x).inQueue := by
    intro x
    rw [hheap, Heap.unlink_apply]
  have hentries : (q.itemHashidx (calcHashKey (q.heap p))).entries.eraseP
      (fun test => sameItem (q.heap p) (q.heap test))
      = (q.itemHashidx (calcHashKey (q.heap p))).entries.erase p := by
    apply ItemIdx.eraseP_eq_erase
    intro x hx
    have hx := (hr.mem_bucket.mp hx).1
    rw [sameItem_iff]
    constructor
    · apply hr.keyUnique hl hx
    · rintro rfl
      rfl
  constructor
  case rings => apply hr.rings_remove hp hq
  case inQueue =>
    intro list' x h
    rw [hqueue]
    apply hr.inQueue (View.mem_of_mem_lists_erase h)
  case isItem =>
    rintro x (h | ⟨y, hy, h⟩)
    · apply hr.isItem (Or.inl (hlisted.mp h).1)
    · apply hr.isItem (Or.inr ⟨y, (hlisted.mp hy).1, h⟩)
  case num =>
    intro list' hl'
    rw [hnum, View.lists_erase_of_ne hl']
    apply hr.num hl'
  case limit =>
    intro list' hl'
    rw [View.lists_erase_of_ne hl']
    apply hr.limit hl'
  case chain =>
    intro x h
    rw [hdup]
    apply (hr.chain (hlisted.mp h).1).congr
    intro y _
    apply hdup
  case dupQueue =>
    intro x d h hd
    rw [hqueue]
    apply hr.dupQueue (hlisted.mp h).1 hd
  case dupKey =>
    intro x d h hd
    rw [hkeys, hkeys]
    apply hr.dupKey (hlisted.mp h).1 hd
  case keyUnique =>
    intro x x' h h' hk
    rw [hkeys, hkeys] at hk
    apply hr.keyUnique (hlisted.mp h).1 (hlisted.mp h').1 hk
  case bucket =>
    intro k
    rw [hindex]
    by_cases hk : k = calcHashKey (q.heap p)
    · subst hk
      rw [Function.update_self]
      apply (hr.bucket _).remove
    · rw [Function.update_of_ne hk]
      apply hr.bucket
  case bucketNodup =>
    intro k
    rw [hindex]
    by_cases hk : k = calcHashKey (q.heap p)
    · subst hk
      rw [Function.update_self, ItemIdx.entries_remove (hr.bucket _), hentries]
      apply (hr.bucketNodup _).erase
    · rw [Function.update_of_ne hk]
      apply hr.bucketNodup
  case mem_bucket =>
    intro k x
    rw [hindex, hlisted, calcHashKey_congr (hkeys x)]
    by_cases hk : k = calcHashKey (q.heap p)
    · subst hk
      rw [Function.update_self, ItemIdx.entries_remove (hr.bucket _), hentries,
        (hr.bucketNodup _).mem_erase_iff, hr.mem_bucket]
      tauto
    · rw [Function.update_of_ne hk, hr.mem_bucket]
      constructor
      · rintro ⟨h, hh⟩
        refine ⟨⟨h, ?_⟩, hh⟩
        rintro rfl
        apply hk hh.symm
      · rintro ⟨⟨h, -⟩, hh⟩
        exact ⟨h, hh⟩

end Represents
