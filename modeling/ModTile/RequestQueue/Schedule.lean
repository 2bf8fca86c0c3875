import ModTile.PriorityFifo
import ModTile.RequestQueue.Runs

/-!
# The order in which requests are served

The queue is compared with five sequences of waiting items that are served first come, first
served, with strict priority.  The two make the same calls: an item that is put on a list
arrives in a class, and a fetch serves the next ticket.  The class of an item is the list of
its command, or the dirty list when as many items as are allowed wait there already.

The queue refines the sequences: its lists hold the items that wait, and a fetch returns the
item of the next ticket.
-/

open Linked Transition PriorityFifo

/-- A run of the queue next to the sequences. -/
structure Scheduled where
  run : QueueRun
  fifo : State ListHead Ptr

namespace Scheduled

/-- A new queue, and sequences in which nobody waits. -/
def init (m : Heap) : Scheduled where
  run := .init m
  fifo := .empty

/-- The class of a new item. -/
def classOf (s : Scheduled) (item : Item) : ListHead :=
  if (s.fifo.waiting (.ofCmd item.req.cmd)).length < reqLimit then .ofCmd item.req.cmd
  else .dirtyHead

/-- The item at `n` has been put on a list: it has not been freed and is not a duplicate. -/
def queued (r : RequestQueue.Added) (n : ℕ) : Bool :=
  !r.freed && (r.queue.heap (.item n)).inQueue ≠ .queueDuplicate

/-- One call, of the queue and of the sequences. -/
def step (s : Scheduled) : QueueCall → Option Scheduled
  | .add n item => do
      let run ← s.run.step (.add n item)
      return {
        run := run
        fifo := if queued (s.run.added n item) n then s.fifo.put (s.classOf item) (.item n)
          else s.fifo }
  | .fetch => do
      let run ← s.run.step .fetch
      let fifo ← s.fifo.serve fetchOrder
      return { run := run, fifo := fifo }
  | .clear fd => do
      let run ← s.run.step (.clear fd)
      return { s with run := run }
  | .remove p renderTime => do
      let run ← s.run.step (.remove p renderTime)
      return { s with run := run }

/-- The lists of the queue hold the items that wait in the classes. -/
structure Refines (s : Scheduled) (v : View) : Prop where
  consistent : s.run.Consistent v
  waiting : ∀ {list}, list ≠ .renderHead → v.lists list = (s.fifo.waiting list).map Ticket.item
  inOrder : s.fifo.InOrder

variable {s s' : Scheduled} {v : View} {n : ℕ} {item : Item} {m : Heap} {p : Ptr}

theorem refines_init :
  (init m).Refines View.empty
  := by
  constructor
  case consistent => apply QueueRun.consistent_init
  case waiting =>
    intro list _
    rfl
  case inOrder => apply State.inOrder_empty

theorem ofCmd_ne_renderHead {cmd : ProtoCmd} :
  ListHead.ofCmd cmd ≠ .renderHead
  := by
  cases cmd <;> simp [ListHead.ofCmd]

/-- An item that is put on a list arrives in the class of that list. -/
theorem waiting_put (hw : ∀ {list}, list ≠ .renderHead →
      v.lists list = (s.fifo.waiting list).map Ticket.item) {list list' : ListHead}
    (hlist' : list' ≠ .renderHead) :
  (v.enqueue list p).lists list' = ((s.fifo.put list p).waiting list').map Ticket.item
  := by
  by_cases h : list' = list
  · subst h
    rw [View.lists_enqueue_self, hw hlist', State.waiting_put_self, List.map_append]
    rfl
  · rw [View.lists_enqueue_of_ne h, hw hlist', State.waiting_put_of_ne h]

namespace Refines

/-- Adding a new item. -/
theorem add (h : s.Refines v) (hn : .item n ∉ s.run.accepted) (hdup : item.duplicates = none) :
  ∃ v', Refines {
    run := { s.run with
      queue := (s.run.added n item).queue
      accepted := if (s.run.added n item).freed then s.run.accepted
        else .item n :: s.run.accepted }
    fifo := if queued (s.run.added n item) n then s.fifo.put (s.classOf item) (.item n)
      else s.fifo } v'
  := by
  obtain ⟨v', ho, hc⟩ := h.consistent.add hn hdup
  have hlength : ∀ cmd : ProtoCmd, (s.fifo.waiting (.ofCmd cmd)).length =
      (v.lists (.ofCmd cmd)).length := by
    intro cmd
    rw [h.waiting ofCmd_ne_renderHead, List.length_map]
  have hcmd : ((s.run.queue.write n item).heap (.item n)).req.cmd = item.req.cmd := by
    rw [RequestQueue.heap_write_self]
  use v', hc
  case inOrder =>
    dsimp only
    split
    · apply h.inOrder.put
    · apply h.inOrder
  case waiting =>
    intro list' hlist'
    have hqueued : ∀ list, (s.run.added n item).freed = false →
        Ptr.item n ∈ v'.lists list → queued (s.run.added n item) n = true := by
      intro list hfreed hmem
      have hin : ((s.run.added n item).queue.heap (.item n)).inQueue = list.inQueue :=
        hc.represents.inQueue hmem
      rw [queued, hfreed, hin]
      cases list <;> rfl
    dsimp only
    generalize s.run.added n item = r at ho hqueued
    cases ho with
    | duplicate t list ht hkey htakes =>
        rw [if_neg]
        · apply h.waiting hlist'
        · simp [queued, RequestQueue.attach]
    | refused t list ht hkey htakes => apply h.waiting hlist'
    | queued list hlist hdirty hroom =>
        have hq := hqueued list rfl (by simp [View.lists_enqueue_self])
        rw [hcmd] at hlist
        rw [hlist] at hroom
        rw [hq, classOf, hlength, if_pos hroom, if_pos rfl, ← hlist]
        apply waiting_put h.waiting hlist'
    | dirty hfull hroom =>
        have hq := hqueued .dirtyHead rfl (by simp [View.lists_enqueue_self])
        have hclass : s.classOf item = .dirtyHead := by
          rw [hcmd] at hfull
          rw [classOf, hlength]
          split
          · rename_i hlt
            by_contra hne
            rw [hfull hne] at hlt
            apply Nat.lt_irrefl _ hlt
          · rfl
        rw [hq, hclass, if_pos rfl]
        apply waiting_put h.waiting hlist'
    | dropped hfull hroom => apply h.waiting hlist'

/-- Without waiting items in the lists before it, the head of a list is the next ticket. -/
theorem next_eq (h : s.Refines v) {list : ListHead} {rest : List Ptr}
    (hlist : list ∈ fetchOrder) (hl : v.lists list = p :: rest)
    (hbefore : ∀ list' ∈ fetchOrder.takeWhile (· ≠ list), v.lists list' = []) :
  ∃ t, s.fifo.next fetchOrder = some t ∧ t.cls = list ∧ t.item = p
  := by
  have hrender : ∀ {list'}, list' ∈ fetchOrder → list' ≠ .renderHead := by
    rintro list' h' rfl
    simp [fetchOrder] at h'
  rw [h.waiting (hrender hlist)] at hl
  obtain ⟨t, ts, hwait, hitem, -⟩ := List.map_eq_cons_iff.mp hl
  have hcls : t.cls = list := by
    apply h.inOrder.cls_of_mem
    rw [hwait]
    apply List.mem_cons_self
  have hempty : ∀ list' ∈ fetchOrder.takeWhile (· ≠ list), (s.fifo.waiting list').head? = none := by
    intro list' h'
    have hnil := hbefore list' h'
    rw [h.waiting (hrender (List.takeWhile_subset _ h')), List.map_eq_nil_iff] at hnil
    rw [hnil]
    rfl
  obtain ⟨l', hsplit⟩ : ∃ l', fetchOrder = fetchOrder.takeWhile (· ≠ list) ++ list :: l' := by
    have hdrop : fetchOrder.dropWhile (· ≠ list) ≠ [] := by
      simpa [List.dropWhile_eq_nil_iff] using hlist
    obtain ⟨list', l', hcons⟩ := List.exists_cons_of_ne_nil hdrop
    have hhead := List.head_dropWhile_not (fun x => decide (x ≠ list)) hdrop
    simp only [hcons, List.head_cons, decide_eq_false_iff_not, not_not] at hhead
    use l'
    conv_lhs => rw [← List.takeWhile_append_dropWhile (p := (· ≠ list)) (l := fetchOrder)]
    rw [hcons, hhead]
  refine ⟨t, ?_, hcls, hitem⟩
  apply List.findSome?_eq_some_iff.mpr
  refine ⟨_, list, l', hsplit, ?_, hempty⟩
  rw [hwait]
  rfl

/-- A fetch serves the next ticket. -/
theorem fetch {q' : RequestQueue} (h : s.Refines v)
    (hq : s.run.queue.requestQueueFetchRequest = some (p, q')) :
  ∃ t fifo v', s.fifo.next fetchOrder = some t ∧ t.item = p ∧
    s.fifo.serve fetchOrder = some fifo ∧
    Refines { run := { s.run with queue := q', fetched := p :: s.run.fetched }, fifo := fifo } v'
  := by
  obtain ⟨list, rest, hlist, hl, hbefore, -, hr⟩ := h.consistent.represents.fetchRequest hq
  obtain ⟨list₂, -, hmem, -, hc⟩ := h.consistent.fetch hq
  obtain rfl : list₂ = list := by
    apply h.consistent.represents.rings.unique hmem
    rw [hl]
    apply List.mem_cons_self
  have horder : list₂ ∈ fetchOrder := by
    cases list₂ <;> simp [fetchOrder] at hlist ⊢
  obtain ⟨t, hnext, rfl, rfl⟩ := h.next_eq horder hl hbefore
  have hserve : s.fifo.serve fetchOrder = some {
      waiting := Function.update s.fifo.waiting t.cls (s.fifo.waiting t.cls).tail
      arrived := s.fifo.arrived
      served := s.fifo.served ++ [t] } := by
    rw [State.serve, hnext]
    rfl
  refine ⟨t, _, (v.erase t.cls t.item).render t.item, hnext, rfl, hserve, ?_⟩
  constructor
  case consistent => apply hc
  case inOrder => apply h.inOrder.serve hserve
  case waiting =>
    intro list' hlist'
    rw [View.lists_render_of_ne hlist']
    dsimp only
    by_cases heq : list' = t.cls
    · subst heq
      rw [View.lists_erase_self, hl, List.erase_cons_head, Function.update_self, List.map_tail,
        ← h.waiting hlist', hl]
      rfl
    · rw [View.lists_erase_of_ne heq, Function.update_of_ne heq]
      apply h.waiting hlist'

/-- Without a waiting item, no ticket is next. -/
theorem next_eq_none (h : s.Refines v) (hq : s.run.queue.requestQueueFetchRequest = none) :
  s.fifo.next fetchOrder = none
  := by
  rw [RequestQueue.fetchRequest_eq, Option.map_eq_none_iff, List.find?_eq_none] at hq
  apply List.findSome?_eq_none_iff.mpr
  intro list hlist
  have hrender : list ≠ .renderHead := by
    rintro rfl
    simp [fetchOrder] at hlist
  have hnum := hq list hlist
  rw [decide_eq_true_eq, not_not, h.consistent.represents.num hrender, h.waiting hrender,
    List.length_map, List.length_eq_zero_iff] at hnum
  rw [hnum]
  rfl

end Refines

/-- Every call of the queue is also one of the sequences. -/
theorem step_of_run {call : QueueCall} {r : QueueRun} (h : s.Refines v)
    (hstep : s.run.step call = some r) :
  ∃ s', s.step call = some s' ∧ s'.run = r
  := by
  cases call with
  | add n item =>
      simp only [step, hstep]
      exact ⟨_, rfl, rfl⟩
  | fetch =>
      obtain ⟨⟨p, q'⟩, hq, -⟩ := Option.bind_eq_some_iff.mp hstep
      obtain ⟨-, fifo, -, -, -, hserve, -⟩ := h.fetch hq
      simp only [step, hstep, hserve]
      exact ⟨_, rfl, rfl⟩
  | clear fd =>
      simp only [step, hstep]
      exact ⟨_, rfl, rfl⟩
  | remove p renderTime =>
      simp only [step, hstep]
      exact ⟨_, rfl, rfl⟩

/-- Every call keeps the refinement. -/
theorem step_refines {call : QueueCall} (h : s.Refines v) (hstep : s.step call = some s') :
  ∃ v', s'.Refines v'
  := by
  cases call with
  | add n item =>
      obtain ⟨r, hr, hs'⟩ := Option.bind_eq_some_iff.mp hstep
      obtain rfl := Option.some.inj hs'
      simp only [QueueRun.step] at hr
      split at hr
      · rename_i hnew
        obtain rfl := Option.some.inj hr
        apply h.add hnew.1 hnew.2
      · simp at hr
  | fetch =>
      obtain ⟨r, hr, hs'⟩ := Option.bind_eq_some_iff.mp hstep
      obtain ⟨fifo, hfifo, hs'⟩ := Option.bind_eq_some_iff.mp hs'
      obtain rfl := Option.some.inj hs'
      obtain ⟨⟨p, q'⟩, hq, hr⟩ := Option.bind_eq_some_iff.mp hr
      obtain rfl := Option.some.inj hr
      obtain ⟨-, fifo', v', -, -, hserve, h'⟩ := h.fetch hq
      rw [hfifo] at hserve
      obtain rfl := Option.some.inj hserve
      use v'
  | clear fd =>
      obtain ⟨r, hr, hs'⟩ := Option.bind_eq_some_iff.mp hstep
      obtain rfl := Option.some.inj hs'
      obtain ⟨q', hq, hr⟩ := Option.bind_eq_some_iff.mp hr
      obtain rfl := Option.some.inj hr
      obtain ⟨q'', hq', -, hc⟩ := h.consistent.clear fd
      rw [hq] at hq'
      obtain rfl := Option.some.inj hq'
      exact ⟨v, hc, h.waiting, h.inOrder⟩
  | remove p renderTime =>
      obtain ⟨r, hr, hs'⟩ := Option.bind_eq_some_iff.mp hstep
      obtain rfl := Option.some.inj hs'
      simp only [QueueRun.step] at hr
      split at hr
      · rename_i hp
        obtain ⟨q', hq, hr⟩ := Option.bind_eq_some_iff.mp hr
        obtain rfl := Option.some.inj hr
        use v.erase .renderHead p, h.consistent.remove hp hq
        · intro list hlist
          rw [View.lists_erase_of_ne hlist]
          apply h.waiting hlist
        · apply h.inOrder
      · simp at hr

/-- In every reached state the queue refines the sequences. -/
theorem reach_refines (h : Reach step anyStep (init m) s) :
  ∃ v, s.Refines v
  := by
  apply h.invariant ⟨_, refines_init⟩
  rintro t call u ⟨v, hrefines⟩ - hstep
  apply step_refines hrefines hstep

/-- In every run, the five lists of the queue hold the items that wait in the classes, in the
order of their arrival; a fetch returns the item of the ticket that is served next, and waits
when there is none; and the tickets of a class are served in the order of their arrival, each
once at most.  The sequences take part in every call of the queue. -/
theorem scheduling_refinement (h : Reach step anyStep (init m) s) :
  (∀ list, list ≠ .renderHead → Ring s.run.queue.heap.next s.run.queue.heap.prev (.head list)
      ((s.fifo.waiting list).map Ticket.item)) ∧
    s.run.queue.requestQueueFetchRequest.map Prod.fst =
      (s.fifo.next fetchOrder).map Ticket.item ∧
    s.fifo.InOrder ∧ s.fifo.served.Nodup ∧
    ∀ call r, s.run.step call = some r → ∃ s', s.step call = some s' ∧ s'.run = r
  := by
  obtain ⟨v, hrefines⟩ := reach_refines h
  refine ⟨?_, ?_, hrefines.inOrder, hrefines.inOrder.served_nodup, ?_⟩
  · intro list hlist
    rw [← hrefines.waiting hlist]
    apply hrefines.consistent.represents.rings.ring
  · cases hq : s.run.queue.requestQueueFetchRequest with
    | none => rw [hrefines.next_eq_none hq]; rfl
    | some r =>
        obtain ⟨t, -, -, hnext, hitem, -⟩ := hrefines.fetch hq
        rw [hnext, Option.map_some, Option.map_some, hitem]
  · intro call r hstep
    apply step_of_run hrefines hstep

/-- A run with two requests of low priority and one of high priority, of which one has been
served. -/
def sampleRun : Option Scheduled :=
  Transition.run step (fun _ _ => true) (init fun _ => Item.sample .cmdIgnore 0 fdInvalid)
    [.add 0 (Item.sample .cmdRenderLow 1 5), .add 1 (Item.sample .cmdRenderLow 8 6),
     .add 2 (Item.sample .cmdRenderPrio 16 6), .fetch]

theorem scheduling_refinement_sampleRun :
  ∃ s, sampleRun = some s ∧
    s.run.queue.requestQueueFetchRequest.map Prod.fst = some (.item 0)
  := by
  have hrun : sampleRun.map (fun s => (s.fifo.next fetchOrder).map Ticket.item) =
      some (some (.item 0)) := by
    decide +kernel
  obtain ⟨s, hs, h⟩ := Option.map_eq_some_iff.mp hrun
  have href := scheduling_refinement (reach_of_run hs (fun _ _ _ => trivial))
  use s, hs
  rw [href.2.1, h]

end Scheduled
