import ModTile.RequestQueue.Content
import ModTile.Renderd.System

/-!
# Who owns an item

An item that has been allocated belongs to the queue, which has accepted it, or to exactly
one worker, which has removed it from the queue and is sending responses along a chain of
duplicates.  `Coherent` says so, and that the workers which render are those that hold a
fetched item.  `Effect` says what every step does, in terms of the view of the queue and of
the chains of the workers, and `step_effect` that a step of the daemon has such an effect
and keeps the daemon coherent.
-/

open Linked Transition RenderThread

namespace Renderd

/-- The items that a worker still has to respond to. -/
def ChainOf (m : Heap) : Worker → List Ptr → Prop
  | .responding _ o, l => Chain m.duplicates o l
  | .idle, l => l = []
  | .rendering _, l => l = []

/-- The queue is consistent with its view, and the allocated items are those of the queue and
those on the chains of the workers, which share no item. -/
structure Coherent (s : Renderd) (v : View) (chains : ℕ → List Ptr) : Prop where
  queue : s.queue.Consistent v
  allocated : ∀ {p}, p ∈ s.allocated ↔ p ∈ s.queue.accepted ∨ ∃ w, p ∈ chains w
  allocatedNodup : s.allocated.Nodup
  chain : ∀ w, ChainOf s.heap (s.workers w) (chains w)
  detached : ∀ {w p}, p ∈ chains w → p ∉ s.queue.accepted
  disjoint : ∀ {w w' p}, p ∈ chains w → p ∈ chains w' → w = w'
  rendering : ∀ {p}, p ∈ s.queue.fetched ↔ ∃ w, s.workers w = .rendering p
  renderingOnce : ∀ {w w' p}, s.workers w = .rendering p → s.workers w' = .rendering p → w = w'

/-- The daemon after the item at `n` for a request has been passed to the queue, with the given
result. -/
def afterAdd (s : Renderd) (request : ℕ) (req : Protocol) (fd : ℤ) (n : ℕ)
    (r : RequestQueue.Added) : Renderd :=
  { s with
    queue := { s.queue with
      queue := r.queue
      accepted := if r.freed then s.queue.accepted else .item n :: s.queue.accepted }
    allocated := if r.freed then s.allocated else .item n :: s.allocated
    requestOf := Function.update s.requestOf (.item n) request
    main := if r.status = .cmdNotDone then .notDone request req fd else .polling }

/-- What a step does to a daemon, to the view of its queue and to the chains of its workers. -/
inductive Effect (maps : List XmlMapConfig) (s : Renderd) (v : View) (chains : ℕ → List Ptr) :
    ThreadStep → Renderd → View → (ℕ → List Ptr) → Prop where
  | accept {fd : ℤ} (hmain : s.main = .polling) (hfd : 0 ≤ fd) (hclosed : s.conns fd = none) :
      Effect maps s v chains (.accept fd)
        { s with
          conns := Function.update s.conns fd (some s.accepts)
          main := .polling
          accepts := s.accepts + 1 } v chains
  | receive {fd : ℤ} {req : Protocol} {conn : ℕ} (hmain : s.main = .polling)
      (hopen : s.conns fd = some conn) :
      Effect maps s v chains (.receive fd req)
        { s with
          received := s.received ++ [{ conn := conn, fd := fd, req := req }]
          main := .received s.received.length req fd } v chains
  /-- A request that does not come to the queue. -/
  | refuse {request : ℕ} {req : Protocol} {fd : ℤ} {address : Option ℕ}
      (hmain : s.main = .received request req fd) :
      Effect maps s v chains (.rxRequest address)
        { s with main := .notDone request (upgrade req) fd } v chains
  /-- A request that is added to the queue. -/
  | add {request : ℕ} {req : Protocol} {fd : ℤ} {n : ℕ} {item : Item} {r : RequestQueue.Added}
      {v' : View} (hmain : s.main = .received request req fd)
      (hcmd : acceptsCmd (upgrade req).cmd) (hfree : .item n ∉ s.allocated)
      (hitem : item = newItem (s.heap (.item n)) (upgrade req) fd)
      (hadded : r = s.queue.added n item)
      (ho : RequestQueue.AddOutcome (s.queue.queue.write n item) v n r v') :
      Effect maps s v chains (.rxRequest (some n)) (s.afterAdd request (upgrade req) fd n r)
        v' chains
  | sendNotDone {request : ℕ} {req : Protocol} {fd : ℤ} (hmain : s.main = .notDone request req fd) :
      Effect maps s v chains .sendNotDone
        { s with
          sent := s.sent ++ [{
            request := request, message := { req with cmd := .cmdNotDone }
            fd := fd, conn := s.conns fd }]
          main := .polling } v chains
  | clear {fd : ℤ} {conn : ℕ} {q' : RequestQueue} (hmain : s.main = .polling)
      (hopen : s.conns fd = some conn)
      (hheap : ∀ x, q'.heap x = if x ∈ s.queue.accepted ∧ (s.heap x).fd = fd then
        { s.heap x with fd := fdInvalid } else s.heap x) :
      Effect maps s v chains (.clear fd)
        { s with queue := { s.queue with queue := q' }, main := .closing fd } v chains
  | close {fd : ℤ} (hmain : s.main = .closing fd) :
      Effect maps s v chains .close
        { s with conns := Function.update s.conns fd none, main := .polling } v chains
  | fetch {worker : ℕ} {p : Ptr} {list : ListHead} (hworker : s.workers worker = .idle)
      (hlist : list ≠ .renderHead) (hp : p ∈ v.lists list) :
      Effect maps s v chains (.fetch worker)
        { s with
          queue := { s.queue with
            queue := (s.queue.queue.fetchFrom list).2, fetched := p :: s.queue.fetched }
          workers := Function.update s.workers worker (.rendering p) }
        ((v.erase list p).render p) chains
  | finish {worker : ℕ} {job : Job} {p : Ptr} {r : Response} {q' : RequestQueue}
      (hworker : s.workers worker = .rendering p) (hp : p ∈ v.lists .renderHead)
      (hr : job.responses maps (s.heap p) = [r])
      (hq : s.queue.queue.requestQueueRemoveRequest p r.renderTime = some q') :
      Effect maps s v chains (.finish worker job)
        { s with
          queue := {
            queue := q'
            accepted := s.queue.accepted.filter (· ∉ s.queue.handedBack p)
            fetched := s.queue.fetched.erase p }
          workers := Function.update s.workers worker (.responding r.cmd (some p))
          rendered :=
            if r.cmd = .cmdDone then s.rendered ++ [job.rendering (s.heap p) s.received.length]
            else s.rendered }
        (v.erase .renderHead p) (Function.update chains worker (p :: v.dups p))
  | respondEnd {worker : ℕ} {rsp : ProtoCmd} (hworker : s.workers worker = .responding rsp none) :
      Effect maps s v chains (.respond worker)
        { s with workers := Function.update s.workers worker .idle } v chains
  | respond {worker : ℕ} {rsp : ProtoCmd} {p : Ptr} {l : List Ptr}
      (hworker : s.workers worker = .responding rsp (some p)) (hchain : chains worker = p :: l) :
      Effect maps s v chains (.respond worker) (s.sendItem worker rsp p)
        v (Function.update chains worker l)

variable {maps : List XmlMapConfig} {s s' : Renderd} {v v' : View} {chains : ℕ → List Ptr}
  {p : Ptr} {w worker : ℕ} {m : Heap}

/-- The new daemon is coherent. -/
theorem coherent_init :
  Coherent (init m) View.empty fun _ => []
  := by
  constructor
  case queue => apply QueueRun.consistent_init
  case allocated => simp [init, QueueRun.init]
  case allocatedNodup => apply List.nodup_nil
  case chain =>
    intro w
    rfl
  case detached => simp
  case disjoint => simp
  case rendering => simp [init, QueueRun.init]
  case renderingOnce => simp [init]

/-- The chain of a worker depends on the duplicates of the items on it. -/
theorem ChainOf.congr {m m' : Heap} {worker : Worker} {l : List Ptr} (h : ChainOf m worker l)
    (hdup : ∀ p ∈ l, (m' p).duplicates = (m p).duplicates) :
  ChainOf m' worker l
  := by
  cases worker with
  | idle => apply h
  | rendering p => apply h
  | responding rsp o => apply Chain.congr h hdup

namespace Coherent

/-- A step that concerns neither the queue nor the items nor the workers. -/
theorem of_eq (hc : Coherent s v chains) (hqueue : s'.queue = s.queue)
    (hallocated : s'.allocated = s.allocated) (hworkers : s'.workers = s.workers) :
  Coherent s' v chains
  := by
  constructor
  case queue =>
    rw [hqueue]
    apply hc.queue
  case allocated =>
    rw [hqueue, hallocated]
    exact hc.allocated
  case allocatedNodup =>
    rw [hallocated]
    apply hc.allocatedNodup
  case chain =>
    rw [heap, hqueue, hworkers]
    apply hc.chain
  case detached =>
    rw [hqueue]
    exact hc.detached
  case disjoint => exact hc.disjoint
  case rendering =>
    rw [hqueue, hworkers]
    exact hc.rendering
  case renderingOnce =>
    rw [hworkers]
    exact hc.renderingOnce

/-- Items on a chain are allocated. -/
theorem mem_allocated_of_chain (hc : Coherent s v chains) (hp : p ∈ chains w) :
  p ∈ s.allocated
  := hc.allocated.mpr (Or.inr ⟨w, hp⟩)

/-- Items of the queue are allocated. -/
theorem mem_allocated_of_accepted (hc : Coherent s v chains) (hp : p ∈ s.queue.accepted) :
  p ∈ s.allocated
  := hc.allocated.mpr (Or.inl hp)

/-- Adding an item to the queue. -/
theorem add {n : ℕ} {item : Item} (hc : Coherent s v chains) (hfree : .item n ∉ s.allocated)
    (hdup : item.duplicates = none) (request : ℕ) (req : Protocol) (fd : ℤ) :
  ∃ v', RequestQueue.AddOutcome (s.queue.queue.write n item) v n (s.queue.added n item) v' ∧
    Coherent (s.afterAdd request req fd n (s.queue.added n item)) v' chains
  := by
  have hn : .item n ∉ s.queue.accepted := fun h => hfree (hc.mem_allocated_of_accepted h)
  obtain ⟨v', ho, hq⟩ := hc.queue.add hn hdup
  use v', ho
  constructor
  case queue => apply hq
  case allocated =>
    intro p
    dsimp only [afterAdd]
    split
    · exact hc.allocated
    · rw [List.mem_cons, List.mem_cons, hc.allocated, or_assoc]
  case allocatedNodup =>
    dsimp only [afterAdd]
    split
    · apply hc.allocatedNodup
    · apply List.nodup_cons.mpr
      exact ⟨hfree, hc.allocatedNodup⟩
  case chain =>
    intro w
    apply (hc.chain w).congr
    intro p hp
    have hpn : p ≠ .item n := by
      rintro rfl
      apply hfree (hc.mem_allocated_of_chain hp)
    have hheld : ¬ v.Held p := fun h => hc.detached hp (hc.queue.accepted.mpr h)
    dsimp only [heap, afterAdd]
    rw [ho.duplicates_of_not_held hheld hpn, RequestQueue.heap_write_of_ne hpn]
  case detached =>
    intro w p hp
    dsimp only [afterAdd]
    split
    · apply hc.detached hp
    · rw [List.mem_cons, not_or]
      use ?_, hc.detached hp
      rintro rfl
      apply hfree (hc.mem_allocated_of_chain hp)
  case disjoint => exact hc.disjoint
  case rendering => exact hc.rendering
  case renderingOnce => exact hc.renderingOnce

/-- Clearing a descriptor. -/
theorem clear (hc : Coherent s v chains) (fd : ℤ) (main : MainThread) :
  ∃ q', s.queue.queue.requestQueueClearRequestsByFd s.queue.accepted.length fd = some q' ∧
    (∀ x, q'.heap x = if x ∈ s.queue.accepted ∧ (s.heap x).fd = fd then
      { s.heap x with fd := fdInvalid } else s.heap x) ∧
    Coherent { s with queue := { s.queue with queue := q' }, main := main } v chains
  := by
  obtain ⟨q', hq, hheap, hqueue⟩ := hc.queue.clear fd
  use q', hq, hheap
  constructor
  case queue => apply hqueue
  case allocated => exact hc.allocated
  case allocatedNodup => apply hc.allocatedNodup
  case chain =>
    intro w
    apply (hc.chain w).congr
    intro p hp
    dsimp only [heap]
    rw [hheap, if_neg fun h => hc.detached hp h.1]
  case detached => exact hc.detached
  case disjoint => exact hc.disjoint
  case rendering => exact hc.rendering
  case renderingOnce => exact hc.renderingOnce

/-- A worker that is not responding has no chain. -/
theorem chain_eq_nil (hc : Coherent s v chains)
    (hworker : s.workers w = .idle ∨ s.workers w = .rendering p) :
  chains w = []
  := by
  have h := hc.chain w
  rcases hworker with hw | hw
  · rw [hw] at h
    apply h
  · rw [hw] at h
    apply h

/-- Fetching an item. -/
theorem fetch {q' : RequestQueue} (hc : Coherent s v chains) (hworker : s.workers worker = .idle)
    (hq : s.queue.queue.requestQueueFetchRequest = some (p, q')) :
  ∃ list, list ≠ .renderHead ∧ p ∈ v.lists list ∧ q' = (s.queue.queue.fetchFrom list).2 ∧
    Coherent { s with
      queue := { s.queue with queue := q', fetched := p :: s.queue.fetched }
      workers := Function.update s.workers worker (.rendering p) }
      ((v.erase list p).render p) chains
  := by
  obtain ⟨list, hlist, hp, hq', hqueue⟩ := hc.queue.fetch hq
  have hnew : ∀ w, s.workers w ≠ .rendering p := by
    intro w hw
    have hfetched := hc.queue.fetched.mp (hc.rendering.mpr ⟨w, hw⟩)
    apply hlist (hc.queue.represents.rings.unique hp hfetched)
  use list, hlist, hp, hq'
  constructor
  case queue => apply hqueue
  case allocated => exact hc.allocated
  case allocatedNodup => apply hc.allocatedNodup
  case chain =>
    intro w
    dsimp only
    by_cases hw : w = worker
    · subst hw
      rw [Function.update_self]
      apply hc.chain_eq_nil (p := p) (Or.inl hworker)
    · rw [Function.update_of_ne hw]
      apply (hc.chain w).congr
      intro x _
      dsimp only [heap]
      rw [hq', RequestQueue.duplicates_fetchFrom]
  case detached => exact hc.detached
  case disjoint => exact hc.disjoint
  case rendering =>
    intro x
    dsimp only
    rw [List.mem_cons, hc.rendering]
    constructor
    · rintro (rfl | ⟨w, hw⟩)
      · exact ⟨worker, Function.update_self ..⟩
      · use w
        rw [Function.update_of_ne, hw]
        rintro rfl
        rw [hworker] at hw
        simp at hw
    · rintro ⟨w, hw⟩
      by_cases hww : w = worker
      · subst hww
        rw [Function.update_self] at hw
        exact Or.inl (Worker.rendering.inj hw).symm
      · rw [Function.update_of_ne hww] at hw
        exact Or.inr ⟨w, hw⟩
  case renderingOnce =>
    intro w w' x hw hw'
    dsimp only at hw hw'
    by_cases hx : x = p
    · subst hx
      have honly : ∀ {u}, Function.update s.workers worker (.rendering x) u = .rendering x →
          u = worker := by
        intro u hu
        by_contra hne
        rw [Function.update_of_ne hne] at hu
        apply hnew u hu
      rw [honly hw, honly hw']
    · have hold : ∀ {u}, Function.update s.workers worker (.rendering p) u = .rendering x →
          s.workers u = .rendering x := by
        intro u hu
        by_cases hne : u = worker
        · subst hne
          rw [Function.update_self] at hu
          apply absurd (Worker.rendering.inj hu).symm hx
        · rw [Function.update_of_ne hne] at hu
          apply hu
      apply hc.renderingOnce (hold hw) (hold hw')

/-- The workers that render when one of them has gone on to something else. -/
theorem rendering_update {new : Worker} {x : Ptr} (hnew : new ≠ .rendering x) :
  Function.update s.workers worker new w = .rendering x ↔
    s.workers w = .rendering x ∧ w ≠ worker
  := by
  by_cases hw : w = worker
  · subst hw
    simp [hnew]
  · simp [hw]

/-- No item is rendered twice when a worker has gone on to something else. -/
theorem renderingOnce_update {new : Worker} {w' : ℕ} {x : Ptr} (hc : Coherent s v chains)
    (hnew : new ≠ .rendering x) (hw : Function.update s.workers worker new w = .rendering x)
    (hw' : Function.update s.workers worker new w' = .rendering x) :
  w = w'
  := by
  rw [rendering_update hnew] at hw hw'
  apply hc.renderingOnce hw.1 hw'.1

/-- The fetched items when a worker that does not render has gone on to something else. -/
theorem fetched_update {new : Worker} {x : Ptr} (hc : Coherent s v chains)
    (hold : s.workers worker ≠ .rendering x) (hnew : new ≠ .rendering x) :
  x ∈ s.queue.fetched ↔ ∃ w, Function.update s.workers worker new w = .rendering x
  := by
  simp only [rendering_update hnew, hc.rendering]
  constructor
  · rintro ⟨w, hw⟩
    use w, hw
    rintro rfl
    apply hold hw
  · rintro ⟨w, hw, -⟩
    use w

/-- Removing an item gives it to the worker, with its duplicates. -/
theorem finish {r : Response} {rendered : List Rendering} {q' : RequestQueue}
    (hc : Coherent s v chains) (hworker : s.workers worker = .rendering p)
    (hq : s.queue.queue.requestQueueRemoveRequest p r.renderTime = some q') :
  p ∈ v.lists .renderHead ∧
    Coherent { s with
      queue := {
        queue := q'
        accepted := s.queue.accepted.filter (· ∉ s.queue.handedBack p)
        fetched := s.queue.fetched.erase p }
      workers := Function.update s.workers worker (.responding r.cmd (some p))
      rendered := rendered }
      (v.erase .renderHead p) (Function.update chains worker (p :: v.dups p))
  := by
  have hfetched : p ∈ s.queue.fetched := hc.rendering.mpr ⟨worker, hworker⟩
  have hp := hc.queue.fetched.mp hfetched
  have hl : v.Listed p := ⟨_, hp⟩
  have hback : s.queue.handedBack p = p :: v.dups p := hc.queue.handedBack_eq hl
  have hnil : chains worker = [] := hc.chain_eq_nil (Or.inr hworker)
  have haccepted : ∀ {x}, x ∈ p :: v.dups p → x ∈ s.queue.accepted := by
    intro x hx
    apply hc.queue.accepted.mpr
    rcases List.mem_cons.mp hx with rfl | hx
    · exact Or.inl hl
    · exact Or.inr ⟨p, hl, hx⟩
  have hmem : ∀ {x w}, x ∈ Function.update chains worker (p :: v.dups p) w ↔
      w = worker ∧ x ∈ p :: v.dups p ∨ x ∈ chains w := by
    intro x w
    by_cases hw : w = worker
    · subst hw
      simp [hnil]
    · simp [hw]
  use hp
  constructor
  case queue => apply hc.queue.remove hfetched hq
  case allocated =>
    intro x
    dsimp only
    rw [hc.allocated, List.mem_filter, hback, decide_eq_true_eq]
    simp only [hmem, exists_or, exists_eq_left]
    by_cases hx : x ∈ p :: v.dups p
    · simp [hx, haccepted hx]
    · simp [hx]
  case allocatedNodup => apply hc.allocatedNodup
  case chain =>
    intro w
    have hdup : ∀ x, (q'.heap x).duplicates = (s.heap x).duplicates := fun x =>
      RequestQueue.duplicates_removeRequest hq
    dsimp only
    by_cases hw : w = worker
    · subst hw
      rw [Function.update_self, Function.update_self]
      use rfl
      dsimp only [heap, Heap.duplicates]
      rw [hdup]
      apply (hc.queue.represents.chain hl).congr
      intro x _
      apply hdup
    · rw [Function.update_of_ne hw, Function.update_of_ne hw]
      apply (hc.chain w).congr
      intro x _
      apply hdup
  case detached =>
    intro w x hx
    dsimp only
    rw [List.mem_filter, hback, decide_eq_true_eq, not_and_not_right]
    intro hacc
    rcases hmem.mp hx with ⟨-, hx⟩ | hx
    · apply hx
    · apply absurd hacc (hc.detached hx)
  case disjoint =>
    intro w w' x hx hx'
    rw [hmem] at hx hx'
    rcases hx with ⟨hw, hx⟩ | hx
    · rcases hx' with ⟨hw', -⟩ | hx'
      · rw [hw, hw']
      · apply absurd (haccepted hx) (hc.detached hx')
    · rcases hx' with ⟨-, hx'⟩ | hx'
      · apply absurd (haccepted hx') (hc.detached hx)
      · apply hc.disjoint hx hx'
  case rendering =>
    intro x
    dsimp only
    have hnew : Worker.responding r.cmd (some p) ≠ .rendering x := by simp
    rw [hc.queue.fetchedNodup.mem_erase_iff, hc.rendering]
    simp only [rendering_update hnew]
    constructor
    · rintro ⟨hne, w, hw⟩
      use w, hw
      rintro rfl
      rw [hworker] at hw
      apply hne (Worker.rendering.inj hw).symm
    · rintro ⟨w, hw, hne⟩
      refine ⟨?_, w, hw⟩
      rintro rfl
      apply hne (hc.renderingOnce hw hworker)
  case renderingOnce =>
    intro w w' x
    apply hc.renderingOnce_update (by simp)

/-- A worker that is at the end of its chain waits for the next item. -/
theorem respondEnd {rsp : ProtoCmd} (hc : Coherent s v chains)
    (hworker : s.workers worker = .responding rsp none) :
  Coherent { s with workers := Function.update s.workers worker .idle } v chains
  := by
  constructor
  case queue => exact hc.queue
  case allocated => exact hc.allocated
  case allocatedNodup => exact hc.allocatedNodup
  case chain =>
    intro w
    dsimp only
    have hw := hc.chain w
    by_cases hww : w = worker
    · subst hww
      rw [hworker] at hw
      rw [Function.update_self]
      apply Chain.unique hw
      rfl
    · rw [Function.update_of_ne hww]
      apply hw
  case detached => exact hc.detached
  case disjoint => exact hc.disjoint
  case rendering =>
    intro x
    apply hc.fetched_update (by simp [hworker]) (by simp)
  case renderingOnce =>
    intro w w' x
    apply hc.renderingOnce_update (by simp)

/-- A worker that has responded to an item frees it. -/
theorem respond {rsp : ProtoCmd} (hc : Coherent s v chains)
    (hworker : s.workers worker = .responding rsp (some p)) :
  ∃ l, chains worker = p :: l ∧
    Coherent (s.sendItem worker rsp p) v (Function.update chains worker l)
  := by
  obtain ⟨l, hl, htail⟩ : ∃ l, chains worker = p :: l ∧
      Chain s.heap.duplicates (s.heap p).duplicates l := by
    have h := hc.chain worker
    rw [hworker] at h
    cases hl : chains worker with
    | nil =>
        rw [hl] at h
        simp [ChainOf, Chain] at h
    | cons x l =>
        rw [hl] at h
        obtain ⟨hx, htail⟩ := h
        obtain rfl := Option.some.inj hx
        exact ⟨l, rfl, htail⟩
  have hnodup : (p :: l).Nodup := by
    have h : Chain s.heap.duplicates (some p) (p :: l) := ⟨rfl, htail⟩
    apply h.nodup
  have hp : p ∈ chains worker := by
    rw [hl]
    apply List.mem_cons_self
  have hmem : ∀ {x w}, x ∈ Function.update chains worker l w ↔ x ∈ chains w ∧ x ≠ p := by
    intro x w
    by_cases hw : w = worker
    · subst hw
      rw [Function.update_self, hl, List.mem_cons]
      constructor
      · intro hx
        use Or.inr hx
        rintro rfl
        apply (List.nodup_cons.mp hnodup).1 hx
      · rintro ⟨hx, hne⟩
        apply hx.resolve_left hne
    · rw [Function.update_of_ne hw, iff_self_and]
      rintro hx rfl
      apply hw (hc.disjoint hx hp)
  have hqueue : (s.sendItem worker rsp p).queue = s.queue := by
    simp only [sendItem]
    split <;> rfl
  have hworkers : (s.sendItem worker rsp p).workers =
      Function.update s.workers worker (.responding rsp (s.heap p).duplicates) := by
    simp only [sendItem]
    split <;> rfl
  have hallocated : (s.sendItem worker rsp p).allocated = s.allocated.erase p := by
    simp only [sendItem]
    split <;> rfl
  use l, hl
  constructor
  case queue =>
    rw [hqueue]
    apply hc.queue
  case allocated =>
    intro x
    rw [hallocated, hqueue, hc.allocatedNodup.mem_erase_iff, hc.allocated]
    simp only [hmem]
    constructor
    · rintro ⟨hne, hx | ⟨w, hx⟩⟩
      · exact Or.inl hx
      · exact Or.inr ⟨w, hx, hne⟩
    · rintro (hx | ⟨w, hx, hne⟩)
      · refine ⟨?_, Or.inl hx⟩
        rintro rfl
        apply hc.detached hp hx
      · exact ⟨hne, Or.inr ⟨w, hx⟩⟩
  case allocatedNodup =>
    rw [hallocated]
    apply hc.allocatedNodup.erase
  case chain =>
    intro w
    rw [heap, hqueue, hworkers]
    by_cases hw : w = worker
    · subst hw
      rw [Function.update_self, Function.update_self]
      apply htail
    · rw [Function.update_of_ne hw, Function.update_of_ne hw]
      apply hc.chain
  case detached =>
    intro w x hx
    rw [hqueue]
    apply hc.detached (hmem.mp hx).1
  case disjoint =>
    intro w w' x hx hx'
    apply hc.disjoint (hmem.mp hx).1 (hmem.mp hx').1
  case rendering =>
    intro x
    rw [hqueue, hworkers]
    apply hc.fetched_update (by simp [hworker]) (by simp)
  case renderingOnce =>
    intro w w' x
    rw [hworkers]
    apply hc.renderingOnce_update (by simp)

/-- The effect of `rx_request`. -/
theorem rxRequest_effect {request : ℕ} {req : Protocol} {fd : ℤ} {address : Option ℕ}
    (maps : List XmlMapConfig) (hc : Coherent s v chains)
    (hmain : s.main = .received request req fd)
    (hrx : s.rxRequest request req fd address = some s') :
  ∃ v', Effect maps s v chains (.rxRequest address) s' v' chains ∧ Coherent s' v' chains
  := by
  have hrefuse : ∀ address, ∃ v',
      Effect maps s v chains (.rxRequest address)
        { s with main := .notDone request (upgrade req) fd } v' chains ∧
      Coherent { s with main := .notDone request (upgrade req) fd } v' chains := by
    intro address
    exact ⟨v, .refuse hmain, hc.of_eq rfl rfl rfl⟩
  simp only [Renderd.rxRequest] at hrx
  split at hrx
  · obtain rfl := Option.some.inj hrx
    apply hrefuse
  · rename_i haccepts
    cases address with
    | none =>
        obtain rfl := Option.some.inj hrx
        apply hrefuse
    | some n =>
        dsimp only at hrx
        split at hrx
        · simp at hrx
        · rename_i hfree
          have hcmd : acceptsCmd (upgrade req).cmd := by
            simp only [not_or, Bool.not_eq_false] at haccepts
            apply haccepts.2
          have hn : .item n ∉ s.queue.accepted := fun h => hfree (hc.mem_allocated_of_accepted h)
          have hdup : (newItem (s.heap (.item n)) (upgrade req) fd).duplicates = none := rfl
          obtain ⟨v', ho, hc'⟩ := hc.add hfree hdup request (upgrade req) fd
          simp only [QueueRun.step, hn, hdup, not_false_eq_true, and_self, if_true,
            Option.bind_eq_bind, Option.bind_some, Option.pure_def, Option.some.injEq] at hrx
          obtain rfl := hrx
          exact ⟨v', .add hmain hcmd hfree rfl rfl ho, hc'⟩

end Coherent

/-- A step of a coherent daemon has one of the effects, and keeps the daemon coherent. -/
theorem step_effect {a : ThreadStep} (hc : Coherent s v chains) (hstep : step maps s a = some s') :
  ∃ v' chains', Effect maps s v chains a s' v' chains' ∧ Coherent s' v' chains'
  := by
  cases a with
  | accept fd =>
      cases hmain : s.main <;> simp only [step, hmain, reduceCtorEq] at hstep
      split at hstep
      · rename_i h
        obtain rfl := Option.some.inj hstep
        exact ⟨v, chains, .accept hmain h.1 h.2, hc.of_eq rfl rfl rfl⟩
      · simp at hstep
  | receive fd req =>
      cases hmain : s.main <;> cases hopen : s.conns fd <;>
        simp only [step, hmain, hopen, reduceCtorEq] at hstep
      obtain rfl := Option.some.inj hstep
      exact ⟨v, chains, .receive hmain hopen, hc.of_eq rfl rfl rfl⟩
  | rxRequest address =>
      cases hmain : s.main <;> simp only [step, hmain, reduceCtorEq] at hstep
      obtain ⟨v', heffect, hc'⟩ := hc.rxRequest_effect maps hmain hstep
      use v', chains
  | sendNotDone =>
      cases hmain : s.main <;> simp only [step, hmain, reduceCtorEq] at hstep
      obtain rfl := Option.some.inj hstep
      exact ⟨v, chains, .sendNotDone hmain, hc.of_eq rfl rfl rfl⟩
  | clear fd =>
      cases hmain : s.main <;> cases hopen : s.conns fd <;>
        simp only [step, hmain, hopen, reduceCtorEq] at hstep
      obtain ⟨q', hq, hheap, hc'⟩ := hc.clear fd (.closing fd)
      simp only [QueueRun.step, hq, Option.bind_eq_bind, Option.bind_some, Option.pure_def,
        Option.some.injEq] at hstep
      obtain rfl := hstep
      exact ⟨v, chains, .clear hmain hopen hheap, hc'⟩
  | close =>
      cases hmain : s.main <;> simp only [step, hmain, reduceCtorEq] at hstep
      obtain rfl := Option.some.inj hstep
      exact ⟨v, chains, .close hmain, hc.of_eq rfl rfl rfl⟩
  | fetch worker =>
      cases hworker : s.workers worker <;> simp only [step, hworker, reduceCtorEq] at hstep
      simp only [QueueRun.step, Option.bind_eq_bind, Option.pure_def, Option.bind_eq_some_iff,
        Option.some.injEq] at hstep
      obtain ⟨⟨p, q'⟩, hq, queue, ⟨⟨p', q''⟩, hq', rfl⟩, rfl⟩ := hstep
      rw [hq] at hq'
      obtain ⟨rfl, rfl⟩ := Prod.mk.inj (Option.some.inj hq')
      obtain ⟨list, hlist, hp, rfl, hc'⟩ := hc.fetch hworker hq
      exact ⟨_, chains, .fetch hworker hlist hp, hc'⟩
  | finish worker job =>
      cases hworker : s.workers worker with
      | idle => simp [step, hworker] at hstep
      | responding rsp o => simp [step, hworker] at hstep
      | rendering p =>
          simp only [step, hworker] at hstep
          split at hstep
          · rename_i r hr
            have hfetched : p ∈ s.queue.fetched := hc.rendering.mpr ⟨worker, hworker⟩
            simp only [QueueRun.step, hfetched, if_true, Option.bind_eq_bind, Option.pure_def,
              Option.bind_eq_some_iff, Option.some.injEq] at hstep
            obtain ⟨queue, ⟨q', hq, rfl⟩, rfl⟩ := hstep
            obtain ⟨hp, hc'⟩ := hc.finish hworker hq
            exact ⟨_, _, .finish hworker hp hr hq, hc'⟩
          · simp at hstep
  | respond worker =>
      cases hworker : s.workers worker with
      | idle => simp [step, hworker] at hstep
      | rendering p => simp [step, hworker] at hstep
      | responding rsp o =>
          cases o with
          | none =>
              simp only [step, hworker, Option.some.injEq] at hstep
              obtain rfl := hstep
              exact ⟨v, chains, .respondEnd hworker, hc.respondEnd hworker⟩
          | some p =>
              simp only [step, hworker, Option.some.injEq] at hstep
              obtain rfl := hstep
              obtain ⟨l, hl, hc'⟩ := hc.respond hworker
              exact ⟨v, _, .respond hworker hl, hc'⟩

end Renderd
