import ModTile.RequestQueue.Schedule

/-!
# How long a request waits

A request waits for the requests before it on its list and for all requests on the lists that are
served first.  While it waits, a fetch takes one of them away, and only a new request on a list
that is served first adds one.  So a request waits for ever only if requests keep arriving on the
lists that are served first.
-/

open Transition PriorityFifo

namespace RequestQueue

/-- How many requests wait on some lists, by the counters of the queue. -/
def noWaiting (q : RequestQueue) : List ListHead → ℕ
  | [] => 0
  | list :: lists => q.num list + q.noWaiting lists

end RequestQueue

/-- The lists that are served before a list. -/
def ListHead.before (list : ListHead) : List ListHead := fetchOrder.takeWhile (· ≠ list)

namespace ListHead

variable {list list' : ListHead}

theorem fetchOrder_eq (h : list ≠ .renderHead) :
  ∃ lower, fetchOrder = list.before ++ list :: lower
  := by
  cases list with
  | renderHead => exact absurd rfl h
  | _ => exact ⟨_, rfl⟩

theorem fetchOrder_nodup : fetchOrder.Nodup := by decide

theorem ne_renderHead_of_mem (h : list ∈ fetchOrder) :
  list ≠ .renderHead
  := by
  rintro rfl
  simp [fetchOrder] at h

theorem ne_renderHead_of_mem_before (h : list' ∈ list.before) :
  list' ≠ .renderHead
  := ne_renderHead_of_mem (List.takeWhile_subset _ h)

end ListHead

/-- The counters tell how many items are on the lists. -/
theorem Represents.noWaiting {q : RequestQueue} {v : View} (hr : Represents q v)
    {lists : List ListHead} (hlists : ∀ list ∈ lists, list ≠ .renderHead) :
  q.noWaiting lists = (lists.flatMap v.lists).length
  := by
  induction lists with
  | nil => rfl
  | cons list lists ih =>
      rw [RequestQueue.noWaiting, List.flatMap_cons, List.length_append,
        hr.num (hlists list List.mem_cons_self),
        ih fun list' h' => hlists list' (List.mem_cons_of_mem _ h')]

/-- The call is a fetch. -/
def QueueCall.isFetch : QueueCall → Bool
  | .fetch => true
  | _ => false

namespace Scheduled

variable {s s' : Scheduled} {v : View} {t : Ticket ListHead Ptr} {k : ℕ} {call : QueueCall}
  {calls : List QueueCall} {m : Heap}

/-- The counters tell how many wait in the classes. -/
theorem Refines.noWaiting (h : s.Refines v) {lists : List ListHead}
    (hlists : ∀ list ∈ lists, list ≠ .renderHead) :
  s.run.queue.noWaiting lists = s.fifo.noWaiting lists
  := by
  rw [h.consistent.represents.noWaiting hlists, State.noWaiting,
    List.flatMap_congr fun list hlist => h.waiting (hlists list hlist), ← List.map_flatMap,
    List.length_map]

/-- What a call does to the sequences. -/
theorem fifo_of_step (hstep : s.step call = some s') :
  (call.isFetch = false ∧ (s'.fifo = s.fifo ∨ ∃ c p, s'.fifo = s.fifo.put c p)) ∨
    call.isFetch = true ∧ s.fifo.serve fetchOrder = some s'.fifo
  := by
  cases call with
  | add n item =>
      obtain ⟨r, -, hs'⟩ := Option.bind_eq_some_iff.mp hstep
      obtain rfl := Option.some.inj hs'
      refine Or.inl ⟨rfl, ?_⟩
      dsimp only
      split
      · exact Or.inr ⟨_, _, rfl⟩
      · exact Or.inl rfl
  | fetch =>
      obtain ⟨r, -, hs'⟩ := Option.bind_eq_some_iff.mp hstep
      obtain ⟨fifo, hserve, hs'⟩ := Option.bind_eq_some_iff.mp hs'
      obtain rfl := Option.some.inj hs'
      exact Or.inr ⟨rfl, hserve⟩
  | clear fd =>
      obtain ⟨r, -, hs'⟩ := Option.bind_eq_some_iff.mp hstep
      obtain rfl := Option.some.inj hs'
      exact Or.inl ⟨rfl, Or.inl rfl⟩
  | remove p renderTime =>
      obtain ⟨r, -, hs'⟩ := Option.bind_eq_some_iff.mp hstep
      obtain rfl := Option.some.inj hs'
      exact Or.inl ⟨rfl, Or.inl rfl⟩

/-- Tickets that have arrived or been served are not forgotten. -/
theorem grows_of_step (hstep : s.step call = some s') :
  s.fifo.arrived <+: s'.fifo.arrived ∧ s.fifo.served <+: s'.fifo.served
  := by
  rcases fifo_of_step hstep with ⟨-, heq | ⟨c, p, heq⟩⟩ | ⟨-, hserve⟩
  · rw [heq]
    exact ⟨List.prefix_rfl, List.prefix_rfl⟩
  · rw [heq]
    exact ⟨List.prefix_append _ _, List.prefix_rfl⟩
  · obtain ⟨u, -, heq⟩ := Option.map_eq_some_iff.mp hserve
    rw [← heq]
    exact ⟨List.prefix_rfl, List.prefix_append _ _⟩

/-- One call: a fetch takes away one of the tickets before `t` or serves `t`, and an arrival on a
list that is served first is one more before `t`. -/
theorem behind_step (h : s.Refines v) (ht : t.cls ≠ .renderHead)
    (hbehind : s.fifo.Behind t.cls.before t k) (hstep : s.step call = some s') :
  t ∈ s'.fifo.served ∨
    ∃ k', s'.fifo.Behind t.cls.before t k' ∧
      k' + call.isFetch.toNat + s.fifo.noArrived t.cls.before =
        k + s'.fifo.noArrived t.cls.before
  := by
  obtain ⟨lower, horder⟩ := ListHead.fetchOrder_eq ht
  have hnodup := ListHead.fetchOrder_nodup
  rw [horder] at hnodup
  rcases fifo_of_step hstep with ⟨hfetch, heq | ⟨c, p, heq⟩⟩ | ⟨hfetch, hserve⟩
  · rw [heq, hfetch]
    exact Or.inr ⟨k, hbehind, rfl⟩
  · rw [heq, hfetch, State.noArrived_put]
    refine Or.inr ⟨_, hbehind.put hnodup.of_append_left, ?_⟩
    rw [Bool.toNat_false, Nat.add_zero, Nat.add_assoc, Nat.add_comm (ite _ _ _)]
  · have harrived : s'.fifo.noArrived t.cls.before = s.fifo.noArrived t.cls.before := by
      obtain ⟨u, -, heq⟩ := Option.map_eq_some_iff.mp hserve
      rw [← heq]
      rfl
    rw [horder] at hserve
    rcases hbehind.serve h.inOrder hnodup hserve with ⟨-, hserved⟩ | ⟨k', rfl, hbehind'⟩
    · rw [hserved]
      exact Or.inl (List.mem_append_right _ (List.mem_singleton_self t))
    · rw [hfetch, harrived]
      exact Or.inr ⟨k', hbehind', rfl⟩

/-- The calls of a run, one after the other. -/
theorem grows_of_run (hrun : Transition.run step (fun _ _ => true) s calls = some s') :
  s.fifo.arrived <+: s'.fifo.arrived ∧ s.fifo.served <+: s'.fifo.served
  := by
  induction calls generalizing s with
  | nil =>
      obtain rfl := Option.some.inj hrun
      exact ⟨List.prefix_rfl, List.prefix_rfl⟩
  | cons call calls ih =>
      obtain ⟨r, hr, hrun⟩ := Option.bind_eq_some_iff.mp hrun
      obtain ⟨harrived, hserved⟩ := grows_of_step hr
      obtain ⟨harrived', hserved'⟩ := ih hrun
      exact ⟨harrived.trans harrived', hserved.trans hserved'⟩

/-- Any number of calls. -/
theorem behind_run (h : s.Refines v) (ht : t.cls ≠ .renderHead)
    (hbehind : s.fifo.Behind t.cls.before t k)
    (hrun : Transition.run step (fun _ _ => true) s calls = some s') :
  t ∈ s'.fifo.served ∨
    ∃ k', s'.fifo.Behind t.cls.before t k' ∧
      k' + calls.countP QueueCall.isFetch + s.fifo.noArrived t.cls.before =
        k + s'.fifo.noArrived t.cls.before
  := by
  induction calls generalizing s v k with
  | nil =>
      obtain rfl := Option.some.inj hrun
      exact Or.inr ⟨k, hbehind, rfl⟩
  | cons call calls ih =>
      obtain ⟨r, hr, hrun⟩ := Option.bind_eq_some_iff.mp hrun
      obtain ⟨v', hrefines⟩ := step_refines h hr
      rcases behind_step h ht hbehind hr with hserved | ⟨k₁, hbehind₁, hk₁⟩
      · exact Or.inl ((grows_of_run hrun).2.subset hserved)
      · rcases ih hrefines hbehind₁ hrun with hserved | ⟨k₂, hbehind₂, hk₂⟩
        · exact Or.inl hserved
        · refine Or.inr ⟨k₂, hbehind₂, ?_⟩
          have hcount : (call :: calls).countP QueueCall.isFetch =
              calls.countP QueueCall.isFetch + call.isFetch.toNat := by
            rw [List.countP_cons]
            cases call.isFetch <;> rfl
          omega

/-- A request that waits at place `i` of its list is served as soon as there have been more
fetches than requests that were before it, on its list and on those that are served first, and
requests that have arrived on those since.  Until then every fetch takes one of these away. -/
theorem served_after {list : ListHead} {i : ℕ} (h : Reach step anyStep (init m) s)
    (hlist : list ≠ .renderHead) (ht : (s.fifo.waiting list)[i]? = some t)
    (hrun : Transition.run step (fun _ _ => true) s calls = some s') :
  (t ∉ s'.fifo.served →
      ∃ j, (s'.fifo.waiting list)[j]? = some t ∧
        j + s'.run.queue.noWaiting list.before + calls.countP QueueCall.isFetch =
          i + s.run.queue.noWaiting list.before +
            (s'.fifo.arrived.drop s.fifo.arrived.length).countP fun u => u.cls ∈ list.before) ∧
    (i + s.run.queue.noWaiting list.before +
        ((s'.fifo.arrived.drop s.fifo.arrived.length).countP fun u => u.cls ∈ list.before) <
          calls.countP QueueCall.isFetch →
      t ∈ s'.fifo.served)
  := by
  obtain ⟨v, hrefines⟩ := reach_refines h
  obtain ⟨v', hrefines'⟩ : ∃ v', s'.Refines v' := by
    have hreach : Reach step anyStep s s' := reach_of_run hrun fun _ _ _ => trivial
    apply hreach.invariant ⟨v, hrefines⟩
    rintro r call r' ⟨w, hw⟩ - hstep
    exact step_refines hw hstep
  obtain rfl : t.cls = list := hrefines.inOrder.cls_of_mem (List.mem_of_getElem? ht)
  have harrived : s'.fifo.noArrived t.cls.before = s.fifo.noArrived t.cls.before +
      (s'.fifo.arrived.drop s.fifo.arrived.length).countP fun u => u.cls ∈ t.cls.before := by
    obtain ⟨l, hl⟩ := (grows_of_run hrun).1
    rw [State.noArrived, State.noArrived, ← hl, List.countP_append, List.drop_left]
  have hlaw := behind_run hrefines hlist ⟨i, ht, rfl⟩ hrun
  have hbefore : ∀ list ∈ t.cls.before, list ≠ .renderHead :=
    fun _ => ListHead.ne_renderHead_of_mem_before
  rw [hrefines.noWaiting hbefore, hrefines'.noWaiting hbefore]
  constructor
  · intro hserved
    obtain ⟨k', ⟨j, hj, rfl⟩, hk'⟩ := hlaw.resolve_left hserved
    exact ⟨j, hj, by omega⟩
  · intro hcount
    rcases hlaw with hserved | ⟨k', ⟨j, hj, rfl⟩, hk'⟩
    · exact hserved
    · omega

/-- Two requests of low priority and one of high priority, which wait. -/
def sampleWaiting : Option Scheduled :=
  Transition.run step (fun _ _ => true) (init fun _ => Item.sample .cmdIgnore 0 fdInvalid)
    [.add 0 (Item.sample .cmdRenderLow 1 5), .add 1 (Item.sample .cmdRenderLow 8 6),
     .add 2 (Item.sample .cmdRenderPrio 16 6)]

/-- One more request of high priority arrives, and the second one of low priority is served by the
fourth fetch. -/
def sampleService : List QueueCall :=
  [.fetch, .add 3 (Item.sample .cmdRenderPrio 24 6), .fetch, .fetch, .fetch]

theorem served_after_sample :
  ∃ s t s', sampleWaiting = some s ∧ (s.fifo.waiting .reqLowHead)[1]? = some t ∧
    Transition.run step (fun _ _ => true) s sampleService = some s' ∧ t ∈ s'.fifo.served
  := by
  have hrun : sampleWaiting.bind (fun s => (s.fifo.waiting .reqLowHead)[1]?.bind fun _ =>
      (Transition.run step (fun _ _ => true) s sampleService).map fun s' =>
        (s.run.queue.noWaiting ListHead.reqLowHead.before,
          (s'.fifo.arrived.drop s.fifo.arrived.length).countP fun u =>
            u.cls ∈ ListHead.reqLowHead.before)) = some (1, 1) := by
    decide +kernel
  obtain ⟨s, hs, hrun⟩ := Option.bind_eq_some_iff.mp hrun
  obtain ⟨t, ht, hrun⟩ := Option.bind_eq_some_iff.mp hrun
  obtain ⟨s', hs', hcounts⟩ := Option.map_eq_some_iff.mp hrun
  obtain ⟨hwaiting, harrived⟩ := Prod.mk.inj hcounts
  refine ⟨s, t, s', hs, ht, hs', ?_⟩
  apply (served_after (reach_of_run hs fun _ _ _ => trivial) (by decide) ht hs').2
  rw [hwaiting, harrived]
  decide

end Scheduled
