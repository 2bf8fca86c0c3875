import ModTile.RequestQueue.Runs

/-!
# Removing a request that is still waiting

`request_queue_remove_request` warns when the request is not being rendered, and removes it
all the same.  It unlinks the item and takes it out of the index, but the counter of the list
the item was on keeps its value.  On the render list, which has no counter, nothing else is to
be done.  On the other five lists the counter is one too large from then on, and when the list
has run empty, the next fetch takes the list head for an item.

`earlyStep` lets a run remove an item from any of the lists.  A removal keeps the
representation invariant exactly when the item is on the render list, apart from the bounds of
the statistics.
-/

open Linked Transition

namespace RequestQueue

variable {q : RequestQueue} {request : Item} {p : Ptr} {renderTime : ℤ}

/-- The rendering of the request is not counted, or its zoom level has an entry in the
statistics. -/
def Countable (request : Item) (renderTime : ℤ) : Prop :=
  renderTime ≤ 0 ∨ 0 ≤ request.req.z.toInt ∧ request.req.z.toInt ≤ maxZoom

theorem isSome_countRender (stats : StatsStruct) :
  (countRender stats request renderTime).isSome ↔ Countable request renderTime
  := by
  unfold countRender countZoom Countable
  split
  · rename_i htime
    split
    · rename_i hz
      simp only [Option.isSome_some, true_iff]
      exact Or.inr ⟨hz.1, Int.lt_add_one_iff.mp hz.2⟩
    · rename_i hz
      simp only [Option.isSome_none, Bool.false_eq_true, false_iff, not_or]
      use not_le.mpr htime
      intro h
      apply hz ⟨h.1, Int.lt_add_one_iff.mpr h.2⟩
  · rename_i htime
    simp only [Option.isSome_some, true_iff]
    exact Or.inl (not_lt.mp htime)

/-- A removal is defined when the index into the statistics is. -/
theorem isSome_removeRequest :
  (q.requestQueueRemoveRequest p renderTime).isSome ↔ Countable (q.heap p) renderTime
  := by
  rw [← isSome_countRender q.stats, requestQueueRemoveRequest]
  cases countRender q.stats (q.heap p) renderTime with
  | none => rfl
  | some stats => rfl

end RequestQueue

namespace QueueRun

variable {s s' : QueueRun} {v v' : View} {p : Ptr} {m : Heap} {renderTime : ℤ}

/-- One call, in which an item on any of the lists may be removed. -/
def earlyStep (s : QueueRun) : QueueCall → Option QueueRun
  | .remove p renderTime =>
      if p ∈ s.accepted ∧ (s.queue.heap p).inQueue ≠ .queueDuplicate then do
        let queue ← s.queue.requestQueueRemoveRequest p renderTime
        return {
          queue := queue
          accepted := s.accepted.filter (· ∉ s.handedBack p)
          fetched := s.fetched.erase p }
      else none
  | call => step s call

/-- The call removes no item that is still waiting. -/
def RemovesFetched (s : QueueRun) : QueueCall → Prop
  | .remove p _ => p ∈ s.fetched
  | _ => True

instance (s : QueueRun) (call : QueueCall) : Decidable (s.RemovesFetched call) :=
  match call with
  | .remove p _ => inferInstanceAs (Decidable (p ∈ s.fetched))
  | .add _ _ => .isTrue trivial
  | .fetch => .isTrue trivial
  | .clear _ => .isTrue trivial

/-- Of the items the queue has accepted, those on the lists are not marked as duplicates. -/
theorem Consistent.listed_iff (hc : Consistent s v) :
  v.Listed p ↔ p ∈ s.accepted ∧ (s.queue.heap p).inQueue ≠ .queueDuplicate
  := by
  constructor
  · rintro ⟨list, hp⟩
    use hc.accepted.mpr (Or.inl ⟨list, hp⟩)
    rw [hc.represents.inQueue hp]
    cases list <;> simp [ListHead.inQueue]
  · rintro ⟨hp, hqueue⟩
    rcases hc.accepted.mp hp with hl | ⟨t, ht, hd⟩
    · apply hl
    · exact absurd (hc.represents.dupQueue ht hd) hqueue

/-- What removing an item on one of the lists does to the queue and the records. -/
theorem earlyStep_remove (hc : Consistent s v) (hp : v.Listed p) :
  s.earlyStep (.remove p renderTime) =
    (s.queue.requestQueueRemoveRequest p renderTime).map fun queue => {
      queue := queue
      accepted := s.accepted.filter (· ∉ s.handedBack p)
      fetched := s.fetched.erase p }
  := by
  rw [earlyStep, if_pos (hc.listed_iff.mp hp)]
  cases s.queue.requestQueueRemoveRequest p renderTime with
  | none => rfl
  | some queue => rfl

/-- Removing an item that is being rendered is a call of an ordinary run. -/
theorem step_of_earlyStep {call : QueueCall} (hcall : s.RemovesFetched call)
    (hstep : s.earlyStep call = some s') :
  s.step call = some s'
  := by
  cases call with
  | remove p renderTime =>
      have hp : p ∈ s.fetched := hcall
      rw [step, if_pos hp]
      rw [earlyStep] at hstep
      split at hstep
      · apply hstep
      · cases hstep
  | add n item => apply hstep
  | fetch => apply hstep
  | clear fd => apply hstep

/-- The counters of the five lists of waiting items are the lengths of the lists. -/
theorem RepresentationInvariant.num (hi : RepresentationInvariant s v) {list : ListHead}
    (hlist : list ≠ .renderHead) :
  s.queue.num list = (v.lists list).length
  := by
  cases list with
  | reqHead => apply hi.reqNum.1
  | reqPrioHead => apply hi.reqPrioNum.1
  | reqLowHead => apply hi.reqLowNum.1
  | reqBulkHead => apply hi.reqBulkNum.1
  | dirtyHead => apply hi.dirtyNum.1
  | renderHead => exact absurd rfl hlist

/-- After an item that is still waiting has been removed, the counter of its list is not the
length of the list, so that the invariant does not hold for any sequences. -/
theorem Consistent.not_invariant_of_waiting (hc : Consistent s v) {list : ListHead}
    (hp : p ∈ v.lists list) (hlist : list ≠ .renderHead)
    (hq : s.queue.requestQueueRemoveRequest p renderTime = some s'.queue) :
  ¬ RepresentationInvariant s' v'
  := by
  intro hi
  have hring := (hc.represents.rings_remove hp hq).ring list
  have hlists := hring.eq_of_next (hi.circular list)
  have hnum := hi.num hlist
  rw [(RequestQueue.removeRequest_eq hq).2.2, hc.represents.num hlist, ← hlists,
    View.lists_erase_self, List.length_erase_of_mem hp] at hnum
  have hpos := List.length_pos_of_mem hp
  omega

/-- A fetch takes an item from one of the lists of waiting items. -/
theorem Consistent.fetch_waiting (hc : Consistent s v) {q' : RequestQueue}
    (hq : s.queue.requestQueueFetchRequest = some (p, q')) :
  ∃ n list, p = .item n ∧ list ≠ .renderHead ∧ p ∈ v.lists list
  := by
  obtain ⟨list, rest, hlist, hl, -, -, -⟩ := hc.represents.fetchRequest hq
  have hp : p ∈ v.lists list := by
    rw [hl]
    apply List.mem_cons_self
  obtain ⟨n, hn⟩ := hc.represents.isItem (Or.inl ⟨list, hp⟩)
  use n, list

/-- In runs that remove only items that are being rendered, the representation invariant holds,
and every fetch returns an item that is waiting on a list.  In every state of such a run, and
for every item on the six lists, removing it leads to a state in which the invariant holds
exactly when the item is being rendered and its rendering can be counted. -/
theorem removal_keeps_invariant (h : Reach earlyStep RemovesFetched (init m) s) :
  ∃ v, RepresentationInvariant s v ∧
    (∀ p renderTime, v.Listed p →
      ((∃ s' v', s.earlyStep (.remove p renderTime) = some s' ∧ RepresentationInvariant s' v') ↔
        p ∈ v.lists .renderHead ∧ RequestQueue.Countable (s.queue.heap p) renderTime)) ∧
    (∀ p q', s.queue.requestQueueFetchRequest = some (p, q') →
      ∃ n list, p = .item n ∧ list ≠ .renderHead ∧ p ∈ v.lists list)
  := by
  have hreach : Reach step anyStep (init m) s := by
    apply h.of_step
    intro t call u hcall hstep
    exact ⟨trivial, step_of_earlyStep hcall hstep⟩
  obtain ⟨v, hc⟩ := reach_consistent hreach
  use v, hc.representationInvariant
  constructor
  · intro p renderTime hp
    constructor
    · rintro ⟨s', v', hs', hi⟩
      rw [earlyStep_remove hc hp] at hs'
      obtain ⟨queue, hq, rfl⟩ := Option.map_eq_some_iff.mp hs'
      obtain ⟨list, hlist⟩ := hp
      constructor
      · by_cases hrender : list = .renderHead
        · rw [← hrender]
          apply hlist
        · exact absurd hi (hc.not_invariant_of_waiting hlist hrender hq)
      · rw [← RequestQueue.isSome_removeRequest, hq]
        rfl
    · rintro ⟨hrender, hcount⟩
      obtain ⟨queue, hq⟩ :=
        Option.isSome_iff_exists.mp (RequestQueue.isSome_removeRequest.mpr hcount)
      obtain ⟨s', hs'⟩ : ∃ s', s.earlyStep (.remove p renderTime) = some s' := by
        rw [earlyStep_remove hc hp, hq]
        exact ⟨_, rfl⟩
      have hcall : s.RemovesFetched (.remove p renderTime) := hc.fetched.mpr hrender
      obtain ⟨v', hc'⟩ := step_consistent hc (step_of_earlyStep hcall hs')
      exact ⟨s', v', hs', hc'.representationInvariant⟩
  · intro p q' hq
    apply hc.fetch_waiting hq

/-- Two requests are added, and the one with priority is fetched: removing it keeps the
invariant. -/
theorem removal_keeps_invariant_fetched :
  ∃ (s : QueueRun) (v : View) (s' : QueueRun) (v' : View),
    run earlyStep (fun s call => decide (s.RemovesFetched call))
      (init fun _ => Item.sample .cmdIgnore 0 fdInvalid)
      [.add 0 (Item.sample .cmdRender 1 5), .add 1 (Item.sample .cmdRenderPrio 8 6), .fetch]
      = some s ∧ .item 1 ∈ v.lists .renderHead ∧
    s.earlyStep (.remove (.item 1) 3) = some s' ∧ RepresentationInvariant s' v'
  := by
  have hrun : (run earlyStep (fun s call => decide (s.RemovesFetched call))
      (init fun _ => Item.sample .cmdIgnore 0 fdInvalid)
      [.add 0 (Item.sample .cmdRender 1 5), .add 1 (Item.sample .cmdRenderPrio 8 6),
        .fetch]).map (fun s => (s.queue.heap.next (.head .renderHead),
          (s.queue.heap (.item 1)).req.z)) = some (.item 1, 4) := by
    decide +kernel
  obtain ⟨s, hs, h⟩ := Option.map_eq_some_iff.mp hrun
  obtain ⟨hnext, hz⟩ := Prod.mk.inj h
  obtain ⟨v, hi, hremove, -⟩ :=
    removal_keeps_invariant (reach_of_run hs (fun _ _ => of_decide_eq_true))
  have hmem := (hi.circular .renderHead).links.next_mem
  rw [hnext] at hmem
  have hp : .item 1 ∈ v.lists .renderHead := by simpa using hmem
  have hcount : RequestQueue.Countable (s.queue.heap (.item 1)) 3 := by
    rw [RequestQueue.Countable, hz]
    decide
  obtain ⟨s', v', hs', hi'⟩ := (hremove (.item 1) 3 ⟨_, hp⟩).mpr ⟨hp, hcount⟩
  use s, v, s', v'

/-- A request is added and removed while it is waiting.  The counter of its list stays at one,
and the next fetch returns the list head. -/
theorem fetch_after_early_removal :
  (run earlyStep (fun _ _ => true) (init fun _ => Item.sample .cmdIgnore 0 fdInvalid)
      [.add 0 (Item.sample .cmdRender 1 5), .remove (.item 0) 0]).bind
    (fun s => s.queue.requestQueueFetchRequest.map fun r => (s.queue.reqNum, s.accepted, r.1))
    = some (1, [], .head .reqHead)
  := by
  decide +kernel

end QueueRun
