import ModTile.RequestQueue.Calls
import ModTile.RequestQueue.Clear
import ModTile.Transition

/-!
# Runs of the queue

A run makes calls of the queue in any order: new items are added, items are fetched, the
items that have been fetched are removed, and file descriptors are cleared.  Next to the
queue, a run records the items that the queue has accepted and not yet handed back, and
those that have been fetched and not yet removed.  Removing an item hands it back together
with its duplicates.

`Consistent` is what holds between the two records and the view that the queue represents,
and every call keeps it.
-/

open Linked Transition

/-- A queue with the items it has accepted and not handed back, and the items that have been
fetched and not removed. -/
structure QueueRun where
  queue : RequestQueue
  accepted : List Ptr
  fetched : List Ptr

/-- The calls of the queue.  A call of `add` passes an item that is written to the address of a
new allocation. -/
inductive QueueCall where
  | add (n : ℕ) (item : Item)
  | fetch
  | clear (fd : ℤ)
  | remove (p : Ptr) (renderTime : ℤ)

namespace QueueRun

/-- A run starts with a new queue. -/
def init (m : Heap) : QueueRun where
  queue := .requestQueueInit m
  accepted := []
  fetched := []

/-- The result of adding `item` at the address `n`. -/
def added (s : QueueRun) (n : ℕ) (item : Item) : RequestQueue.Added :=
  (s.queue.write n item).requestQueueAddRequest (.item n)

/-- The item at `p` and its duplicates. -/
def handedBack (s : QueueRun) (p : Ptr) : List Ptr :=
  p :: walk s.queue.heap.duplicates s.accepted.length (s.queue.heap p).duplicates

/-- One call.  An added item is new: it has no duplicates, and its address is not that of an item
the queue holds.  A removed item has been fetched and not been removed. -/
def step (s : QueueRun) : QueueCall → Option QueueRun
  | .add n item =>
      if .item n ∉ s.accepted ∧ item.duplicates = none then
        let r := s.added n item
        some { s with
          queue := r.queue
          accepted := if r.freed then s.accepted else .item n :: s.accepted }
      else none
  | .fetch => do
      let (p, queue) ← s.queue.requestQueueFetchRequest
      return { s with queue := queue, fetched := p :: s.fetched }
  | .clear fd => do
      let queue ← s.queue.requestQueueClearRequestsByFd s.accepted.length fd
      return { s with queue := queue }
  | .remove p renderTime =>
      if p ∈ s.fetched then do
        let queue ← s.queue.requestQueueRemoveRequest p renderTime
        return {
          queue := queue
          accepted := s.accepted.filter (· ∉ s.handedBack p)
          fetched := s.fetched.erase p }
      else none

/-- The queue represents the view, the view holds the accepted items, its render sequence holds
the fetched items, and the items on the dirty list have no duplicates and nobody waits for
them. -/
structure Consistent (s : QueueRun) (v : View) : Prop where
  represents : Represents s.queue v
  accepted : ∀ {p}, p ∈ s.accepted ↔ v.Held p
  fetched : ∀ {p}, p ∈ s.fetched ↔ p ∈ v.lists .renderHead
  acceptedNodup : s.accepted.Nodup
  fetchedNodup : s.fetched.Nodup
  dirtyFd : ∀ {p}, p ∈ v.lists .dirtyHead → (s.queue.heap p).fd = fdInvalid
  dirtyDups : ∀ {p}, p ∈ v.lists .dirtyHead → v.dups p = []

variable {s s' : QueueRun} {v : View} {n : ℕ} {item : Item} {p x : Ptr} {m : Heap}

theorem consistent_init :
  Consistent (init m) View.empty
  := by
  have hheld : ∀ {p}, ¬ View.empty.Held p := by
    rintro p (⟨list, h⟩ | ⟨t, ⟨list, h⟩, -⟩)
    · simp [View.empty] at h
    · simp [View.empty] at h
  constructor
  case represents => apply RequestQueue.represents_init
  case accepted =>
    intro p
    simp [init, hheld]
  case fetched =>
    intro p
    simp [init, View.empty]
  case acceptedNodup => apply List.nodup_nil
  case fetchedNodup => apply List.nodup_nil
  case dirtyFd =>
    intro p h
    simp [View.empty] at h
  case dirtyDups =>
    intro p h
    rfl

namespace Consistent

open RequestQueue

/-- An item that has not been accepted is not held. -/
theorem not_held (hc : Consistent s v) (hn : .item n ∉ s.accepted) :
  ¬ v.Held (.item n)
  := fun h => hn (hc.accepted.mpr h)

/-- A queue that represents the same view, in which nobody waits for the dirty items. -/
theorem of_queue {q' : RequestQueue} (hc : Consistent s v) (hr : Represents q' v)
    (hdirty : ∀ {x}, x ∈ v.lists .dirtyHead → (q'.heap x).fd = fdInvalid) :
  Consistent { s with queue := q' } v
  := by
  constructor
  case represents => apply hr
  case accepted =>
    intro x
    apply hc.accepted
  case fetched =>
    intro x
    apply hc.fetched
  case acceptedNodup => apply hc.acceptedNodup
  case fetchedNodup => apply hc.fetchedNodup
  case dirtyFd =>
    intro x hx
    apply hdirty hx
  case dirtyDups =>
    intro x hx
    apply hc.dirtyDups hx

/-- A queue that holds one more item, which is not being rendered. -/
theorem of_accepted {q' : RequestQueue} {v' : View} (hc : Consistent s v)
    (hn : .item n ∉ s.accepted) (hr : Represents q' v')
    (hheld : ∀ {x}, v'.Held x ↔ v.Held x ∨ x = .item n)
    (hrender : v'.lists .renderHead = v.lists .renderHead)
    (hdirty : ∀ {x}, x ∈ v'.lists .dirtyHead → (q'.heap x).fd = fdInvalid)
    (hdups : ∀ {x}, x ∈ v'.lists .dirtyHead → v'.dups x = []) :
  Consistent { s with queue := q', accepted := .item n :: s.accepted } v'
  := by
  constructor
  case represents => apply hr
  case accepted =>
    intro x
    rw [hheld, ← hc.accepted, List.mem_cons, or_comm]
  case fetched =>
    intro x
    rw [hrender]
    apply hc.fetched
  case acceptedNodup =>
    apply List.nodup_cons.mpr
    exact ⟨hn, hc.acceptedNodup⟩
  case fetchedNodup => apply hc.fetchedNodup
  case dirtyFd =>
    intro x hx
    apply hdirty hx
  case dirtyDups =>
    intro x hx
    apply hdups hx

/-- Adding a new item. -/
theorem add (hc : Consistent s v) (hn : .item n ∉ s.accepted) (hdup : item.duplicates = none) :
  ∃ v', AddOutcome (s.queue.write n item) v n (s.added n item) v' ∧
    Consistent { s with
      queue := (s.added n item).queue
      accepted := if (s.added n item).freed then s.accepted else .item n :: s.accepted } v'
  := by
  have hfree := hc.not_held hn
  have hne : ∀ {x}, v.Held x → x ≠ .item n := by
    rintro x hx rfl
    apply hfree hx
  have hdirty : ∀ {x}, x ∈ v.lists .dirtyHead →
      ((s.queue.write n item).heap x).fd = fdInvalid := by
    intro x hx
    rw [heap_write_of_ne (hne (Or.inl ⟨_, hx⟩))]
    apply hc.dirtyFd hx
  obtain ⟨v', ho, hr⟩ := (hc.represents.write hfree item).addRequest hfree
    (by rw [heap_write_self, hdup])
  use v', ho
  change Represents (s.added n item).queue v' at hr
  change AddOutcome _ _ _ (s.added n item) v' at ho
  generalize s.added n item = r at ho hr ⊢
  cases ho with
  | duplicate t list ht hkey htakes =>
      apply hc.of_accepted hn hr (View.held_attach ⟨list, ht⟩) rfl
      · intro x hx
        rw [heap_attach]
        apply hdirty hx
      · intro x hx
        rw [View.dups_attach_of_ne, hc.dirtyDups hx]
        rintro rfl
        obtain rfl := hc.represents.rings.unique ht hx
        simp [ListHead.takesDuplicates] at htakes
  | refused t list ht hkey htakes => apply hc.of_queue hr hdirty
  | queued list hlist hnotdirty hroom =>
      have hrender : ListHead.renderHead ≠ list := by
        rw [hlist]
        cases ((s.queue.write n item).heap (.item n)).req.cmd <;>
          simp [ListHead.ofCmd]
      apply hc.of_accepted hn hr (View.held_enqueue hfree) (View.lists_enqueue_of_ne hrender)
      · intro x hx
        rw [View.lists_enqueue_of_ne hnotdirty.symm] at hx
        rw [heap_enqueue]
        apply hdirty hx
      · intro x hx
        rw [View.lists_enqueue_of_ne hnotdirty.symm] at hx
        rw [View.dups_enqueue_of_ne (hne (Or.inl ⟨_, hx⟩)), hc.dirtyDups hx]
  | dirty hfull hroom =>
      apply hc.of_accepted hn hr (View.held_enqueue hfree) (View.lists_enqueue_of_ne (by simp))
      · intro x hx
        rw [View.lists_enqueue_self, List.mem_append, List.mem_singleton] at hx
        rw [heap_enqueue]
        rcases hx with hx | rfl
        · simp only [Heap.setFd_apply, hne (Or.inl ⟨_, hx⟩), if_false]
          apply hdirty hx
        · simp
      · intro x hx
        rw [View.lists_enqueue_self, List.mem_append, List.mem_singleton] at hx
        rcases hx with hx | rfl
        · rw [View.dups_enqueue_of_ne (hne (Or.inl ⟨_, hx⟩)), hc.dirtyDups hx]
        · apply View.dups_enqueue_self
  | dropped hfull hroom => apply hc.of_queue hr hdirty

/-- Fetching an item. -/
theorem fetch {q' : RequestQueue} (hc : Consistent s v)
    (hq : s.queue.requestQueueFetchRequest = some (p, q')) :
  ∃ list, list ≠ .renderHead ∧ p ∈ v.lists list ∧ q' = (s.queue.fetchFrom list).2 ∧
    Consistent { s with queue := q', fetched := p :: s.fetched } ((v.erase list p).render p)
  := by
  obtain ⟨list, rest, hlist, hl, -, hq', hr⟩ := hc.represents.fetchRequest hq
  have hmem : p ∈ v.lists list := by
    rw [hl]
    apply List.mem_cons_self
  have hlisted : ∀ {x}, ((v.erase list p).render p).Listed x ↔ v.Listed x :=
    hc.represents.listed_fetch hmem
  have hdirty : ∀ {x}, x ∈ ((v.erase list p).render p).lists .dirtyHead →
      x ∈ v.lists .dirtyHead := by
    intro x hx
    rw [View.lists_render_of_ne (by simp)] at hx
    apply View.mem_of_mem_lists_erase hx
  use list, hlist, hmem, hq'
  constructor
  case represents => apply hr
  case accepted =>
    intro x
    rw [hc.accepted, View.Held, View.Held, hlisted]
    simp only [hlisted]
    rfl
  case fetched =>
    intro x
    rw [View.lists_render_self, View.lists_erase_of_ne hlist.symm, List.mem_cons, List.mem_cons,
      hc.fetched]
  case acceptedNodup => apply hc.acceptedNodup
  case fetchedNodup =>
    apply List.nodup_cons.mpr
    use ?_, hc.fetchedNodup
    rw [hc.fetched]
    intro h
    apply hlist (hc.represents.rings.unique hmem h)
  case dirtyFd =>
    intro x hx
    dsimp only
    rw [hq', fd_fetchFrom]
    apply hc.dirtyFd (hdirty hx)
  case dirtyDups =>
    intro x hx
    apply hc.dirtyDups (hdirty hx)

/-- The accepted items are at least as many as the items of a list, and as the duplicates of an
item. -/
theorem length_le (hc : Consistent s v) :
  (∀ list, (v.lists list).length ≤ s.accepted.length) ∧
    ∀ p, v.Listed p → (v.dups p).length ≤ s.accepted.length
  := by
  constructor
  · intro list
    apply (List.nodup_cons.mp (hc.represents.rings.ring list).nodup).2.length_le_of_subset
    intro x hx
    apply hc.accepted.mpr (Or.inl ⟨list, hx⟩)
  · intro p hp
    apply (hc.represents.chain hp).nodup.length_le_of_subset
    intro x hx
    apply hc.accepted.mpr (Or.inr ⟨p, hp, hx⟩)

/-- The items that the loops visit and those that they do not: a file descriptor is cleared from
all the accepted items. -/
theorem clearItems_eq (hc : Consistent s v) (fd : ℤ) (x : Ptr) :
  clearItems s.queue.heap fd (clearedLists.flatMap fun list => visited v.dups (v.lists list)) x =
    if x ∈ s.accepted ∧ (s.queue.heap x).fd = fd then { s.queue.heap x with fd := fdInvalid }
    else s.queue.heap x
  := by
  by_cases hx : x ∈ clearedLists.flatMap fun list => visited v.dups (v.lists list)
  · have hacc : x ∈ s.accepted := by
      obtain ⟨list, -, t, ht, hx⟩ := mem_visited.mp hx
      apply hc.accepted.mpr
      rcases hx with rfl | hx
      · exact Or.inl ⟨list, ht⟩
      · exact Or.inr ⟨t, ⟨list, ht⟩, hx⟩
    simp [clearItems, hx, hacc]
  · have hdirty : x ∈ s.accepted → (s.queue.heap x).fd = fdInvalid := by
      intro hacc
      have hout : ∀ {list t}, t ∈ v.lists list → x = t ∨ x ∈ v.dups t → list = .dirtyHead := by
        intro list t ht hxt
        by_contra hne
        apply hx (mem_visited.mpr ⟨list, _, t, ht, hxt⟩)
        cases list <;> simp [clearedLists] at hne ⊢
      rcases hc.accepted.mp hacc with ⟨list, h⟩ | ⟨t, ⟨list, ht⟩, h⟩
      · obtain rfl := hout h (Or.inl rfl)
        apply hc.dirtyFd h
      · obtain rfl := hout ht (Or.inr h)
        rw [hc.dirtyDups ht] at h
        simp at h
    simp only [clearItems, hx, false_and, if_false]
    split
    · rename_i h
      rw [← hdirty h.1]
    · rfl

/-- With enough rounds, clearing a file descriptor ends, clears it from the accepted items, and
changes nothing else. -/
theorem clear_eq (hc : Consistent s v) (fd : ℤ) {rounds : ℕ}
    (hrounds : s.accepted.length ≤ rounds) :
  s.queue.requestQueueClearRequestsByFd rounds fd = some { s.queue with
    heap := fun x => if x ∈ s.accepted ∧ (s.queue.heap x).fd = fd then
      { s.queue.heap x with fd := fdInvalid } else s.queue.heap x }
  := by
  obtain ⟨hlists, hdups⟩ := hc.length_le
  rw [hc.represents.clearRequestsByFd (fun list => (hlists list).trans hrounds)
    (fun p hp => (hdups p hp).trans hrounds)]
  congr 2
  funext x
  apply hc.clearItems_eq

/-- Clearing a file descriptor ends, and clears it from the accepted items. -/
theorem clear (hc : Consistent s v) (fd : ℤ) :
  ∃ q', s.queue.requestQueueClearRequestsByFd s.accepted.length fd = some q' ∧
    (∀ x, q'.heap x = if x ∈ s.accepted ∧ (s.queue.heap x).fd = fd then
      { s.queue.heap x with fd := fdInvalid } else s.queue.heap x) ∧
    Consistent { s with queue := q' } v
  := by
  refine ⟨_, hc.clear_eq fd (Nat.le_refl _), fun _ => rfl, ?_⟩
  have hheap : (fun x => if x ∈ s.accepted ∧ (s.queue.heap x).fd = fd then
      { s.queue.heap x with fd := fdInvalid } else s.queue.heap x) =
      clearItems s.queue.heap fd s.accepted := rfl
  rw [hheap]
  apply hc.of_queue hc.represents.clearItems
  intro x hx
  simp only [clearItems]
  split
  · rfl
  · apply hc.dirtyFd hx

/-- The item that is removed is handed back with its duplicates. -/
theorem handedBack_eq (hc : Consistent s v) (hp : v.Listed p) :
  s.handedBack p = p :: v.dups p
  := by
  rw [handedBack, (hc.represents.chain hp).walk_eq (hc.length_le.2 p hp)]

/-- Removing an item that has been fetched. -/
theorem remove {q' : RequestQueue} {renderTime : ℤ} (hc : Consistent s v) (hp : p ∈ s.fetched)
    (hq : s.queue.requestQueueRemoveRequest p renderTime = some q') :
  Consistent { queue := q', accepted := s.accepted.filter (· ∉ s.handedBack p),
               fetched := s.fetched.erase p } (v.erase .renderHead p)
  := by
  have hr := hc.represents
  have hmem : p ∈ v.lists .renderHead := hc.fetched.mp hp
  have hl : v.Listed p := ⟨_, hmem⟩
  have hlisted : ∀ {x}, (v.erase .renderHead p).Listed x ↔ v.Listed x ∧ x ≠ p :=
    hr.listed_erase hmem
  have hdirty : (v.erase .renderHead p).lists .dirtyHead = v.lists .dirtyHead :=
    View.lists_erase_of_ne (by simp)
  constructor
  case represents => apply hr.remove hmem hq
  case accepted =>
    intro x
    rw [List.mem_filter, hc.accepted, decide_eq_true_eq, hc.handedBack_eq hl, List.mem_cons, not_or]
    constructor
    · rintro ⟨h | ⟨t, ht, h⟩, hxp, hxd⟩
      · exact Or.inl (hlisted.mpr ⟨h, hxp⟩)
      · right
        refine ⟨t, hlisted.mpr ⟨ht, ?_⟩, h⟩
        rintro rfl
        apply hxd h
    · rintro (h | ⟨t, ht, h⟩)
      · obtain ⟨h, hxp⟩ := hlisted.mp h
        exact ⟨Or.inl h, hxp, hr.not_dup h hl⟩
      · obtain ⟨htl, htp⟩ := hlisted.mp ht
        refine ⟨Or.inr ⟨t, htl, h⟩, ?_, ?_⟩
        · rintro rfl
          apply hr.not_dup hl htl h
        · intro hd
          apply htp (hr.dup_unique htl hl h hd)
  case fetched =>
    intro x
    have nodup := (List.nodup_cons.mp (hr.rings.ring .renderHead).nodup).2
    rw [View.lists_erase_self, hc.fetchedNodup.mem_erase_iff, nodup.mem_erase_iff, hc.fetched]
  case acceptedNodup => apply hc.acceptedNodup.filter
  case fetchedNodup => apply hc.fetchedNodup.erase
  case dirtyFd =>
    intro x hx
    rw [hdirty] at hx
    rw [(removeRequest_eq hq).1, Heap.unlink_apply]
    apply hc.dirtyFd hx
  case dirtyDups =>
    intro x hx
    rw [hdirty] at hx
    apply hc.dirtyDups hx

end Consistent

/-- Every call keeps the queue and the records consistent. -/
theorem step_consistent {call : QueueCall} (hc : Consistent s v) (hstep : s.step call = some s') :
  ∃ v', Consistent s' v'
  := by
  cases call with
  | add n item =>
      simp only [step] at hstep
      split at hstep
      · rename_i h
        obtain ⟨v', -, hc'⟩ := hc.add h.1 h.2
        obtain rfl := Option.some.inj hstep
        use v'
      · simp at hstep
  | fetch =>
      simp only [step, Option.bind_eq_bind, Option.pure_def, Option.bind_eq_some_iff,
        Option.some.injEq] at hstep
      obtain ⟨⟨p, q'⟩, hq, rfl⟩ := hstep
      obtain ⟨list, -, -, -, hc'⟩ := hc.fetch hq
      exact ⟨_, hc'⟩
  | clear fd =>
      simp only [step, Option.bind_eq_bind, Option.pure_def, Option.bind_eq_some_iff,
        Option.some.injEq] at hstep
      obtain ⟨q', hq, rfl⟩ := hstep
      obtain ⟨q'', hq', -, hc'⟩ := hc.clear fd
      rw [hq] at hq'
      obtain rfl := Option.some.inj hq'
      use v
  | remove p renderTime =>
      simp only [step] at hstep
      split at hstep
      · rename_i hp
        simp only [Option.bind_eq_bind, Option.pure_def, Option.bind_eq_some_iff,
          Option.some.injEq] at hstep
        obtain ⟨q', hq, rfl⟩ := hstep
        exact ⟨_, hc.remove hp hq⟩
      · simp at hstep

/-- In every reached state the queue represents a view that agrees with the records. -/
theorem reach_consistent (h : Reach step anyStep (init m) s) :
  ∃ v, Consistent s v
  := by
  apply h.invariant ⟨_, consistent_init⟩
  rintro t a u ⟨v, hc⟩ - hstep
  apply step_consistent hc hstep

/-- The representation invariant of the queue, for the items that are on the six lists and in
the chains of duplicates. -/
structure RepresentationInvariant (s : QueueRun) (v : View) : Prop where
  /-- The counters are the lengths of the five lists of waiting items, within the limits. -/
  reqNum : s.queue.reqNum = (v.lists .reqHead).length ∧ s.queue.reqNum ≤ reqLimit
  reqPrioNum : s.queue.reqPrioNum = (v.lists .reqPrioHead).length ∧ s.queue.reqPrioNum ≤ reqLimit
  reqLowNum : s.queue.reqLowNum = (v.lists .reqLowHead).length ∧ s.queue.reqLowNum ≤ reqLimit
  reqBulkNum : s.queue.reqBulkNum = (v.lists .reqBulkHead).length ∧ s.queue.reqBulkNum ≤ reqLimit
  dirtyNum : s.queue.dirtyNum = (v.lists .dirtyHead).length ∧ s.queue.dirtyNum ≤ dirtyLimit
  /-- Every list is a circular doubly linked list. -/
  circular : ∀ list, Ring s.queue.heap.next s.queue.heap.prev (.head list) (v.lists list)
  /-- An item is on one list at most, and names it. -/
  oneList : ∀ list list' p, p ∈ v.lists list → p ∈ v.lists list' → list = list'
  inQueue : ∀ list p, p ∈ v.lists list → (s.queue.heap p).inQueue = list.inQueue
  /-- The index holds exactly the items on the lists, each once and in its bucket. -/
  indexed : ∀ k p, p ∈ (s.queue.itemHashidx k).entries ↔
    v.Listed p ∧ RequestQueue.calcHashKey (s.queue.heap p) = k
  indexedOnce : ∀ k, (s.queue.itemHashidx k).entries.Nodup
  /-- A bucket whose inline place is empty has no nodes. -/
  inlineHead : ∀ k, (s.queue.itemHashidx k).item = none → (s.queue.itemHashidx k).next = []
  /-- No two items on the lists have the same key. -/
  keys : ∀ p p', v.Listed p → v.Listed p' →
    (s.queue.heap p).key = (s.queue.heap p').key → p = p'
  /-- The duplicates of an item are chained to it. -/
  chained : ∀ p, v.Listed p → Chain s.queue.heap.duplicates (s.queue.heap p).duplicates (v.dups p)
  /-- An accepted item that is on no list is a duplicate of exactly one item that is, with the
  same key. -/
  duplicate : ∀ p ∈ s.accepted, ¬ v.Listed p →
    ∃! t, v.Listed t ∧ p ∈ v.dups t ∧ (s.queue.heap p).key = (s.queue.heap t).key
  /-- Conversely, the queue has accepted the items on the lists and in the chains. -/
  acceptedListed : ∀ p, v.Listed p → p ∈ s.accepted
  acceptedChained : ∀ p t, v.Listed t → p ∈ v.dups t → p ∈ s.accepted

/-- The representation invariant holds when the queue and the records are consistent. -/
theorem Consistent.representationInvariant (hc : Consistent s v) :
  RepresentationInvariant s v
  := by
  have hr := hc.represents
  have hnum : ∀ list, list ≠ .renderHead →
      s.queue.num list = (v.lists list).length ∧ s.queue.num list ≤ list.limit := by
    intro list hlist
    use hr.num hlist
    rw [hr.num hlist]
    apply hr.limit hlist
  constructor
  case reqNum => apply hnum .reqHead (by simp)
  case reqPrioNum => apply hnum .reqPrioHead (by simp)
  case reqLowNum => apply hnum .reqLowHead (by simp)
  case reqBulkNum => apply hnum .reqBulkHead (by simp)
  case dirtyNum => apply hnum .dirtyHead (by simp)
  case circular => apply hr.rings.ring
  case oneList =>
    intro list list' p hp hp'
    apply hr.rings.unique hp hp'
  case inQueue =>
    intro list p hp
    apply hr.inQueue hp
  case indexed =>
    intro k p
    apply hr.mem_bucket
  case indexedOnce => apply hr.bucketNodup
  case inlineHead => apply hr.bucket
  case keys =>
    intro p p' hp hp'
    apply hr.keyUnique hp hp'
  case chained =>
    intro p hp
    apply hr.chain hp
  case duplicate =>
    intro p hp hnot
    obtain ⟨t, ht, hd⟩ := (hc.accepted.mp hp).resolve_left hnot
    use t, ⟨ht, hd, hr.dupKey ht hd⟩
    rintro t' ⟨ht', hd', -⟩
    apply hr.dup_unique ht' ht hd' hd
  case acceptedListed =>
    intro p hp
    apply hc.accepted.mpr (Or.inl hp)
  case acceptedChained =>
    intro p t ht hd
    apply hc.accepted.mpr (Or.inr ⟨t, ht, hd⟩)

/-- The representation invariant holds after any sequence of calls on a new queue. -/
theorem representation_invariant (h : Reach step anyStep (init m) s) :
  ∃ v, RepresentationInvariant s v
  := by
  obtain ⟨v, hc⟩ := reach_consistent h
  use v
  apply hc.representationInvariant

/-- A run with a queued item, a duplicate of it that joins while it is being rendered, and two
items for other metatiles, of which one has been fetched and removed. -/
def sampleRun : Option QueueRun :=
  run step (fun _ _ => true) (init fun _ => Item.sample .cmdIgnore 0 fdInvalid)
    [.add 0 (Item.sample .cmdRender 1 5), .add 1 (Item.sample .cmdRenderPrio 8 6), .fetch,
     .remove (.item 1) 3, .fetch, .add 2 (Item.sample .cmdRender 2 6), .clear 6,
     .add 1 (Item.sample .cmdRenderLow 8 5)]

theorem representation_invariant_sampleRun :
  ∃ s v, sampleRun = some s ∧ s.accepted = [.item 1, .item 2, .item 0] ∧
    s.fetched = [.item 0] ∧ RepresentationInvariant s v
  := by
  have hrun : sampleRun.map (fun s => (s.accepted, s.fetched)) =
      some ([.item 1, .item 2, .item 0], [.item 0]) := by
    decide +kernel
  obtain ⟨s, hs, h⟩ := Option.map_eq_some_iff.mp hrun
  obtain ⟨hacc, hfetched⟩ := Prod.mk.inj h
  obtain ⟨v, hv⟩ := representation_invariant (reach_of_run hs (fun _ _ _ => trivial))
  use s, v

/-- The queue `q'` is the queue `q`, which holds the sequences of the view, without the file
descriptor `fd`. -/
structure Forgotten (q q' : RequestQueue) (v : View) (fd : ℤ) : Prop where
  /-- No item on the six lists and no duplicate of one has the file descriptor. -/
  forgotten : ∀ p, v.Held p → (q'.heap p).fd ≠ fd
  /-- Memory with another file descriptor, or outside of the queue, is not written. -/
  others : ∀ p, ¬ (v.Held p ∧ (q.heap p).fd = fd) → q'.heap p = q.heap p
  /-- The pointers and the content of the items do not change. -/
  content : ∀ p, { q'.heap p with fd := fd } = { q.heap p with fd := fd }
  /-- The index, the counters and the statistics do not change. -/
  unchanged : { q' with heap := q.heap } = q
  /-- The queue holds the same sequences. -/
  represents : Represents q' v

/-- In every reached state, clearing a file descriptor ends and removes it from all the items on
the lists and in the chains, also from those on the dirty list, and changes nothing else. -/
theorem clear_forgets (h : Reach step anyStep (init m) s) {fd : ℤ} (hfd : fd ≠ fdInvalid)
    {rounds : ℕ} (hrounds : s.accepted.length ≤ rounds) :
  ∃ v q', Represents s.queue v ∧ s.queue.requestQueueClearRequestsByFd rounds fd = some q' ∧
    Forgotten s.queue q' v fd
  := by
  obtain ⟨v, hc⟩ := reach_consistent h
  refine ⟨v, _, hc.represents, hc.clear_eq fd hrounds, ?_⟩
  constructor
  case forgotten =>
    intro p hp
    have hacc := hc.accepted.mpr hp
    dsimp only
    split
    · apply hfd.symm
    · rename_i hne
      intro heq
      apply hne ⟨hacc, heq⟩
  case others =>
    intro p hp
    apply if_neg
    rw [hc.accepted]
    apply hp
  case content =>
    intro p
    dsimp only
    split <;> rfl
  case unchanged => rfl
  case represents => apply hc.represents.clearItems

/-- Two items of the sample run have the file descriptor 5, and one of them is being rendered. -/
theorem clear_forgets_sampleRun :
  ∃ s v q', sampleRun = some s ∧ s.queue.requestQueueClearRequestsByFd 3 5 = some q' ∧
    Forgotten s.queue q' v 5
  := by
  have hrun : sampleRun.map (fun s => s.accepted.length) = some 3 := by
    decide +kernel
  obtain ⟨s, hs, hlength⟩ := Option.map_eq_some_iff.mp hrun
  have hfd : (5 : ℤ) ≠ fdInvalid := by decide
  obtain ⟨v, q', -, hq, hforgotten⟩ := clear_forgets (reach_of_run hs (fun _ _ _ => trivial))
    hfd (Nat.le_of_eq hlength)
  use s, v, q'

end QueueRun
