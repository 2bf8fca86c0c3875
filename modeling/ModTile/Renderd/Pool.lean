import ModTile.CondVar
import ModTile.Renderd.Answers
import ModTile.RequestQueue.Service

/-!
# The rendering threads wait for requests

A rendering thread that finds no request waits at the condition variable `qCond` of the queue, and
`request_queue_add_request` signals the variable when it has put an item on a list.  The state of
the daemon is extended by the threads that wait at the variable; everything else is as before.

When a thread waits, as many threads have been woken up as requests wait.  So no request is
overlooked: when no rendering thread can do anything, all of them wait, every item has been freed
and every request has been answered.
-/

open Linked Transition

namespace View

/-- How many items wait on the lists. -/
def noWaiting (v : View) : ℕ := (fetchOrder.flatMap v.lists).length

variable {v : View} {list : ListHead} {p t : Ptr}

theorem noWaiting_enqueue (h : list ∈ fetchOrder) :
  (v.enqueue list p).noWaiting = v.noWaiting + 1
  := by
  have hlength : (fetchOrder.flatMap (v.enqueue list p).lists).length + _ = _ :=
    PriorityFifo.length_flatMap_of_ne ListHead.fetchOrder_nodup h
      fun list' hne => lists_enqueue_of_ne hne
  rw [lists_enqueue_self, List.length_append, List.length_singleton] at hlength
  rw [noWaiting, noWaiting]
  omega

theorem noWaiting_fetch (h : list ∈ fetchOrder) (hp : p ∈ v.lists list) :
  ((v.erase list p).render p).noWaiting + 1 = v.noWaiting
  := by
  have hrender : fetchOrder.flatMap ((v.erase list p).render p).lists =
      fetchOrder.flatMap (v.erase list p).lists := by
    apply List.flatMap_congr
    intro list' h'
    apply lists_render_of_ne (ListHead.ne_renderHead_of_mem h')
  have hlength : (fetchOrder.flatMap (v.erase list p).lists).length + _ = _ :=
    PriorityFifo.length_flatMap_of_ne ListHead.fetchOrder_nodup h
      fun list' hne => lists_erase_of_ne hne
  have hpos := List.length_pos_of_mem hp
  rw [lists_erase_self, List.length_erase_of_mem hp] at hlength
  rw [noWaiting, noWaiting, hrender]
  omega

theorem noWaiting_erase_render :
  (v.erase .renderHead p).noWaiting = v.noWaiting
  := by
  rw [noWaiting, noWaiting, List.flatMap_congr]
  intro list h
  apply lists_erase_of_ne (ListHead.ne_renderHead_of_mem h)

/-- Nothing waits when all lists are empty, apart from that of the items that are rendered. -/
theorem lists_eq_nil_of_noWaiting (h : v.noWaiting = 0) (hlist : list ≠ .renderHead) :
  v.lists list = []
  := by
  have hmem : list ∈ fetchOrder := by
    cases list <;> simp [fetchOrder] at hlist ⊢
  exact List.flatMap_eq_nil_iff.mp (List.length_eq_zero_iff.mp h) list hmem

end View

namespace RequestQueue

variable {q q' : RequestQueue} {v v' : View} {n : ℕ} {r : Added} {p : Ptr}

theorem noWaiting_eq_zero_iff {lists : List ListHead} :
  q.noWaiting lists = 0 ↔ ∀ list ∈ lists, q.num list = 0
  := by
  induction lists with
  | nil => simp [noWaiting]
  | cons list lists ih => rw [noWaiting, Nat.add_eq_zero_iff, ih, List.forall_mem_cons]

/-- A thread has to wait exactly when nothing waits for it. -/
theorem fetchRequest_eq_none_iff :
  q.requestQueueFetchRequest = none ↔ q.noWaiting fetchOrder = 0
  := by
  rw [fetchRequest_eq, Option.map_eq_none_iff, List.find?_eq_none, noWaiting_eq_zero_iff]
  simp

theorem queued_enqueue {status : ProtoCmd} {list : ListHead} :
  Scheduled.queued ⟨status, false, q.enqueue list (.item n)⟩ n = true
  := by
  simp only [Scheduled.queued, heap_enqueue, if_true]
  cases list <;> rfl

/-- An item that has been added waits if it has been put on a list. -/
theorem AddOutcome.noWaiting (ho : AddOutcome q v n r v') :
  v'.noWaiting = v.noWaiting + (Scheduled.queued r n).toNat
  := by
  cases ho with
  | duplicate t list ht hkey htakes =>
      have hqueued : Scheduled.queued ⟨.cmdIgnore, false, q.attach t (.item n)⟩ n = false := by
        simp [Scheduled.queued, attach]
      rw [hqueued]
      rfl
  | refused t list ht hkey htakes => rfl
  | queued list hlist hdirty hroom =>
      rw [queued_enqueue, View.noWaiting_enqueue]
      · rfl
      · rw [hlist]
        cases (q.heap (.item n)).req.cmd <;> simp [ListHead.ofCmd, fetchOrder]
  | dirty hfull hroom =>
      rw [queued_enqueue, View.noWaiting_enqueue (by simp [fetchOrder])]
      rfl
  | dropped hfull hroom => rfl

end RequestQueue

namespace Renderd

/-- How many requests wait in the queue. -/
def noWaiting (s : Renderd) : ℕ := s.queue.queue.noWaiting fetchOrder

/-- The call of `rx_request` signals the condition variable: the request is added to the queue and
put on a list. -/
def signals (s : Renderd) (address : Option ℕ) : Bool :=
  match s.main, address with
  | .received _ req fd, some n =>
      if (upgrade req).ver > 3 ∨ acceptsCmd (upgrade req).cmd = false then false
      else Scheduled.queued (s.queue.added n (newItem (s.heap (.item n)) (upgrade req) fd)) n
  | _, _ => false

variable {maps : List XmlMapConfig} {s s' : Renderd} {v v' : View} {chains chains' : ℕ → List Ptr}
  {w : ℕ} {p : Ptr}

theorem Coherent.noWaiting (hc : Coherent s v chains) :
  s.noWaiting = v.noWaiting
  := hc.queue.represents.noWaiting fun _ => ListHead.ne_renderHead_of_mem

theorem signals_none :
  s.signals none = false
  := by
  unfold signals
  cases s.main <;> rfl

theorem signals_some {request n : ℕ} {req : Protocol} {fd : ℤ}
    (hmain : s.main = .received request req fd) :
  s.signals (some n) =
    if (upgrade req).ver > 3 ∨ acceptsCmd (upgrade req).cmd = false then false
    else Scheduled.queued (s.queue.added n (newItem (s.heap (.item n)) (upgrade req) fd)) n
  := by
  unfold signals
  rw [hmain]

/-- A request that has been received is refused, or added to the queue with one of the outcomes. -/
theorem rxRequest_cases {request : ℕ} {req : Protocol} {fd : ℤ} {address : Option ℕ}
    (hmain : s.main = .received request req fd)
    (hrx : s.rxRequest request req fd address = some s') :
  (s' = { s with main := .notDone request (upgrade req) fd } ∧ s.signals address = false) ∨
    ∃ n item, address = some n ∧ .item n ∉ s.allocated ∧ item.duplicates = none ∧
      s' = s.afterAdd request (upgrade req) fd n (s.queue.added n item) ∧
      s.signals address = Scheduled.queued (s.queue.added n item) n
  := by
  simp only [Renderd.rxRequest] at hrx
  cases address with
  | none =>
      split at hrx
      · exact Or.inl ⟨(Option.some.inj hrx).symm, signals_none⟩
      · exact Or.inl ⟨(Option.some.inj hrx).symm, signals_none⟩
  | some n =>
      rw [signals_some hmain]
      by_cases hbad : (upgrade req).ver > 3 ∨ acceptsCmd (upgrade req).cmd = false
      · rw [if_pos hbad] at hrx ⊢
        exact Or.inl ⟨(Option.some.inj hrx).symm, rfl⟩
      · rw [if_neg hbad] at hrx ⊢
        dsimp only at hrx
        by_cases hfree : .item n ∈ s.allocated
        · rw [if_pos hfree] at hrx
          cases hrx
        · rw [if_neg hfree] at hrx
          refine Or.inr ⟨n, newItem (s.heap (.item n)) (upgrade req) fd, rfl, hfree, rfl, ?_, rfl⟩
          obtain ⟨queue, hqueue, hs'⟩ := Option.bind_eq_some_iff.mp hrx
          simp only [QueueRun.step] at hqueue
          split at hqueue
          · obtain rfl := Option.some.inj hqueue
            exact (Option.some.inj hs').symm
          · cases hqueue

/-- What `rx_request` does to the queue and to the memory. -/
theorem rxRequest_spec {address : Option ℕ} (hc : Coherent s v chains)
    (hstep : step maps s (.rxRequest address) = some s') :
  s'.noWaiting = s.noWaiting + (s.signals address).toNat ∧
    s'.allocated.length ≤ s.allocated.length + 1 ∧ s'.workers = s.workers
  := by
  cases hmain : s.main <;> simp only [step, hmain, reduceCtorEq] at hstep
  rcases rxRequest_cases hmain hstep with
    ⟨rfl, hsignals⟩ | ⟨n, item, rfl, hfree, hdup, rfl, hsignals⟩
  · rw [hsignals]
    exact ⟨rfl, Nat.le_succ _, rfl⟩
  · obtain ⟨v', ho, hc'⟩ := hc.add hfree hdup _ _ _
    rw [hc'.noWaiting, hc.noWaiting, hsignals]
    refine ⟨ho.noWaiting, ?_, rfl⟩
    dsimp only [afterAdd]
    split
    · exact Nat.le_succ _
    · exact le_rfl

end Renderd

/-- The step is one of those that do not come to the condition variable. -/
def ThreadStep.isOther : ThreadStep → Bool
  | .rxRequest _ | .fetch _ => false
  | _ => true

/-- The step is one of a worker. -/
def ThreadStep.ofWorker : ThreadStep → Bool
  | .fetch _ | .finish _ _ | .respond _ => true
  | _ => false

/-- What is left to do for a worker before it fetches an item. -/
def Worker.weight : Worker → ℕ
  | .idle => 0
  | .responding _ _ => 1
  | .rendering _ => 2

namespace Renderd

variable {maps : List XmlMapConfig} {s s' : Renderd} {v v' : View} {chains chains' : ℕ → List Ptr}
  {n w : ℕ} {a : ThreadStep}

/-- What the threads below `n` have left to do. -/
def load (n : ℕ) (workers : ℕ → Worker) : ℕ := ∑ w ∈ Finset.range n, (workers w).weight

theorem load_update {workers : ℕ → Worker} {worker : Worker} (hw : w < n) :
  load n (Function.update workers w worker) + (workers w).weight = load n workers + worker.weight
  := by
  have hsum := CondVar.sum_range_of_ne (f := fun w => (workers w).weight)
    (g := fun x => (Function.update workers w worker x).weight) hw
    fun x hx => by rw [Function.update_of_ne hx]
  rw [Function.update_self] at hsum
  exact hsum

theorem update_ne_idle {workers : ℕ → Worker} {worker : Worker} (hne : workers w ≠ .idle) :
  ∀ w', workers w' = .idle → Function.update workers w worker w' = .idle
  := by
  intro w' hidle
  rw [Function.update_of_ne _, hidle]
  rintro rfl
  exact hne hidle

/-- A fetch of a thread below `n` takes one of the items that wait. -/
theorem fetch_spec (hc : Coherent s v chains) (hw : w < n)
    (hstep : step maps s (.fetch w) = some s') :
  s'.noWaiting + 1 = s.noWaiting ∧ load n s'.workers = load n s.workers + 2 ∧
    s'.allocated = s.allocated ∧ ∀ w' ≠ w, s'.workers w' = s.workers w'
  := by
  obtain ⟨v', chains', heffect, hc'⟩ := step_effect hc hstep
  rw [hc'.noWaiting, hc.noWaiting]
  cases heffect with
  | @fetch _ p list hworker hlist hp =>
      have horder : list ∈ fetchOrder := by
        cases list <;> simp [fetchOrder] at hlist ⊢
      have hload : load n (Function.update s.workers w (.rendering p)) + _ = _ := load_update hw
      rw [hworker] at hload
      exact ⟨View.noWaiting_fetch horder hp, hload, rfl, fun w' hne => Function.update_of_ne hne ..⟩

/-- The other steps do not change what waits, and a step of a worker leaves it less to do. -/
theorem other_spec (hc : Coherent s v chains) (ha : a.isOther = true)
    (hworking : ∀ w, s.workers w ≠ .idle → w < n) (hstep : step maps s a = some s') :
  s'.noWaiting = s.noWaiting ∧ (∀ w, s.workers w = .idle → s'.workers w = .idle) ∧
    s'.allocated.length + load n s'.workers + a.ofWorker.toNat ≤
      s.allocated.length + load n s.workers
  := by
  obtain ⟨v', chains', heffect, hc'⟩ := step_effect hc hstep
  rw [hc'.noWaiting, hc.noWaiting]
  cases heffect with
  | add => cases ha
  | refuse => cases ha
  | fetch => cases ha
  | accept hmain hfd hclosed => exact ⟨rfl, fun w h => h, le_rfl⟩
  | receive hmain hopen => exact ⟨rfl, fun w h => h, le_rfl⟩
  | sendNotDone hmain => exact ⟨rfl, fun w h => h, le_rfl⟩
  | clear hmain hopen hheap => exact ⟨rfl, fun w h => h, le_rfl⟩
  | close hmain => exact ⟨rfl, fun w h => h, le_rfl⟩
  | @finish w job p r q' hworker hp hr hq =>
      have hne : s.workers w ≠ .idle := by simp [hworker]
      have hload : load n (Function.update s.workers w (.responding r.cmd (some p))) + _ = _ :=
        load_update (hworking w hne)
      rw [hworker] at hload
      refine ⟨View.noWaiting_erase_render, update_ne_idle hne, ?_⟩
      simp only [Worker.weight] at hload
      simp only [ThreadStep.ofWorker, Bool.toNat_true]
      omega
  | @respondEnd w rsp hworker =>
      have hne : s.workers w ≠ .idle := by simp [hworker]
      have hload : load n (Function.update s.workers w .idle) + _ = _ :=
        load_update (hworking w hne)
      rw [hworker] at hload
      refine ⟨rfl, update_ne_idle hne, ?_⟩
      simp only [Worker.weight] at hload
      simp only [ThreadStep.ofWorker, Bool.toNat_true]
      omega
  | @respond w rsp p l hworker hchain =>
      have hne : s.workers w ≠ .idle := by simp [hworker]
      have hload : load n
          (Function.update s.workers w (.responding rsp (s.heap p).duplicates)) + _ = _ :=
        load_update (hworking w hne)
      have hp : p ∈ s.allocated := by
        apply hc.mem_allocated_of_chain (w := w)
        rw [hchain]
        apply List.mem_cons_self
      have hlength := List.length_erase_of_mem hp
      have hpos := List.length_pos_of_mem hp
      rw [hworker] at hload
      simp only [Worker.weight] at hload
      rw [sendItem_eq]
      refine ⟨rfl, update_ne_idle hne, ?_⟩
      simp only [ThreadStep.ofWorker, Bool.toNat_true]
      omega

/-- The zoom levels of the maps are those that the statistics have counters for. -/
def ZoomsFit (maps : List XmlMapConfig) : Prop :=
  ∀ map ∈ maps, 0 ≤ map.minzoom ∧ map.maxzoom ≤ maxZoom

/-- An item that has been rendered has a zoom level of one of the maps. -/
theorem ZoomsFit.renderItem (hmaps : ZoomsFit maps) (item : Item) (o : RenderOutcome) :
  ∃ r, RenderThread.renderItem maps item o = [r] ∧
    (r.renderTime > 0 → 0 ≤ item.req.z.toInt ∧ item.req.z.toInt < maxZoom + 1)
  := by
  rw [RenderThread.renderItem_eq]
  refine ⟨_, rfl, ?_⟩
  cases hfind : maps.find? (·.xmlname = item.req.xmlnameString) with
  | none => simp
  | some map =>
      obtain ⟨hmin, hmax⟩ := hmaps map (List.mem_of_find?_eq_some hfind)
      simp only [RenderThread.renderMap]
      split_ifs with hok hxyz
      · intro _
        simp only [checkXyz] at hxyz
        split_ifs at hxyz with hzoom
        omega
      · simp
      · simp

/-- A rendering thread can finish the item that it renders. -/
theorem exists_finish {p : Ptr} (hmaps : ZoomsFit maps) (hc : Coherent s v chains)
    (hworker : s.workers w = .rendering p) (o : RenderOutcome) :
  ∃ s', step maps s (.finish w (.render o)) = some s'
  := by
  obtain ⟨r, hr, htime⟩ := hmaps.renderItem (s.heap p) o
  obtain ⟨stats, hstats⟩ : ∃ stats, RequestQueue.countRender s.queue.queue.stats (s.heap p)
      r.renderTime = some stats := by
    rw [RequestQueue.countRender]
    split_ifs with hpos
    · rw [RequestQueue.countZoom, dif_pos (htime hpos)]
      exact ⟨_, rfl⟩
    · exact ⟨_, rfl⟩
  have hfetched : p ∈ s.queue.fetched := hc.rendering.mpr ⟨w, hworker⟩
  have hremove : ∃ q', s.queue.queue.requestQueueRemoveRequest p r.renderTime = some q' := by
    rw [RequestQueue.requestQueueRemoveRequest]
    dsimp only [heap] at hstats
    rw [hstats]
    exact ⟨_, rfl⟩
  obtain ⟨q', hq'⟩ := hremove
  simp only [step, hworker, Job.responses, hr, QueueRun.step, if_pos hfetched, hq']
  exact ⟨_, rfl⟩

end Renderd

/-- The daemon with the rendering threads that wait at the condition variable of the queue. -/
structure Pool where
  daemon : Renderd
  qCond : CondVar ℕ

/-- A step of a thread.  `rx_request` may wake up a thread, and a thread may also be woken up
without a signal. -/
inductive PoolStep where
  | other (a : ThreadStep)
  | rxRequest (address : Option ℕ) (woken : Option ℕ)
  | fetch (worker : ℕ)
  | wake (worker : ℕ)

/-- The step is one of a worker. -/
def PoolStep.ofWorker : PoolStep → Bool
  | .other a => a.ofWorker
  | .fetch _ => true
  | _ => false

namespace Pool

/-- The daemon before the first connection. -/
def init (m : Heap) : Pool where
  daemon := .init m
  qCond := .init

/-- The condition variable after the call of `rx_request`. -/
def signalled (s : Pool) (address woken : Option ℕ) : Option (CondVar ℕ) :=
  if s.daemon.signals address then s.qCond.signal woken else some s.qCond

/-- One step of a daemon with `n` workers.  A worker that calls `request_queue_fetch_request` gets
an item, or waits when there is none. -/
def step (maps : List XmlMapConfig) (n : ℕ) (s : Pool) : PoolStep → Option Pool
  | .other a =>
      if a.isOther then do
        let daemon ← s.daemon.step maps a
        return { s with daemon := daemon }
      else none
  | .rxRequest address woken => do
      let daemon ← s.daemon.step maps (.rxRequest address)
      let qCond ← s.signalled address woken
      return { daemon := daemon, qCond := qCond }
  | .fetch w =>
      match s.daemon.workers w with
      | .idle =>
          if w < n ∧ w ∉ s.qCond.waiting then
            match s.daemon.step maps (.fetch w) with
            | some daemon => some { daemon := daemon, qCond := s.qCond.leave w }
            | none => some { s with qCond := s.qCond.wait w }
          else none
      | _ => none
  | .wake w => if w ∈ s.qCond.waiting then some { s with qCond := s.qCond.wake w } else none

variable {maps : List XmlMapConfig} {n : ℕ} {s t : Pool} {a : PoolStep} {w : ℕ} {m : Heap}

/-- What a step does. -/
inductive Step (maps : List XmlMapConfig) (n : ℕ) (s : Pool) : PoolStep → Pool → Prop where
  | other {a : ThreadStep} {daemon : Renderd} (ha : a.isOther = true)
      (hdaemon : s.daemon.step maps a = some daemon) :
      Step maps n s (.other a) { s with daemon := daemon }
  | signal {address woken : Option ℕ} {daemon : Renderd} {qCond : CondVar ℕ}
      (hdaemon : s.daemon.step maps (.rxRequest address) = some daemon)
      (hsignals : s.daemon.signals address = true) (hcond : s.qCond.signal woken = some qCond) :
      Step maps n s (.rxRequest address woken) { daemon := daemon, qCond := qCond }
  | silent {address woken : Option ℕ} {daemon : Renderd}
      (hdaemon : s.daemon.step maps (.rxRequest address) = some daemon)
      (hsignals : s.daemon.signals address = false) :
      Step maps n s (.rxRequest address woken) { s with daemon := daemon }
  | take {w : ℕ} {daemon : Renderd} (hw : w < n) (hwaiting : w ∉ s.qCond.waiting)
      (hidle : s.daemon.workers w = .idle) (hdaemon : s.daemon.step maps (.fetch w) = some daemon) :
      Step maps n s (.fetch w) { daemon := daemon, qCond := s.qCond.leave w }
  | sleep {w : ℕ} (hw : w < n) (hwaiting : w ∉ s.qCond.waiting)
      (hidle : s.daemon.workers w = .idle) (hnone : s.daemon.noWaiting = 0) :
      Step maps n s (.fetch w) { s with qCond := s.qCond.wait w }
  | wake {w : ℕ} (hw : w ∈ s.qCond.waiting) :
      Step maps n s (.wake w) { s with qCond := s.qCond.wake w }

/-- An idle worker gets no item exactly when none waits. -/
theorem fetch_eq_none_iff (hidle : s.daemon.workers w = .idle) :
  s.daemon.step maps (.fetch w) = none ↔ s.daemon.noWaiting = 0
  := by
  rw [Renderd.noWaiting, ← RequestQueue.fetchRequest_eq_none_iff]
  simp only [Renderd.step, hidle, QueueRun.step]
  cases s.daemon.queue.queue.requestQueueFetchRequest with
  | none => simp
  | some r => simp

theorem Step.of_step (h : step maps n s a = some t) :
  Step maps n s a t
  := by
  cases a with
  | other a =>
      dsimp only [step] at h
      split_ifs at h with ha
      obtain ⟨daemon, hdaemon, ht⟩ := Option.bind_eq_some_iff.mp h
      obtain rfl := Option.some.inj ht
      exact .other ha hdaemon
  | rxRequest address woken =>
      obtain ⟨daemon, hdaemon, h⟩ := Option.bind_eq_some_iff.mp h
      obtain ⟨qCond, hcond, ht⟩ := Option.bind_eq_some_iff.mp h
      obtain rfl := Option.some.inj ht
      rw [signalled] at hcond
      split_ifs at hcond with hsignals
      · exact .signal hdaemon hsignals hcond
      · obtain rfl := Option.some.inj hcond
        exact .silent hdaemon (Bool.eq_false_iff.mpr hsignals)
  | fetch w =>
      cases hidle : s.daemon.workers w <;> simp only [step, hidle, reduceCtorEq] at h
      split_ifs at h with hw
      split at h
      · rename_i daemon hdaemon
        obtain rfl := Option.some.inj h
        exact .take hw.1 hw.2 hidle hdaemon
      · rename_i hnone
        obtain rfl := Option.some.inj h
        exact .sleep hw.1 hw.2 hidle ((fetch_eq_none_iff hidle).mp hnone)
  | wake w =>
      dsimp only [step] at h
      split_ifs at h with hw
      obtain rfl := Option.some.inj h
      exact .wake hw

/-- A run of the daemon with the threads that wait is one of the daemon. -/
theorem reach_daemon (h : Reach (step maps n) anyStep (init m) s) :
  Reach (Renderd.step maps) anyStep (Renderd.init m) s.daemon
  := by
  apply h.project (f := Pool.daemon)
  intro t a u _ hstep
  cases Step.of_step hstep with
  | other ha hdaemon => exact Or.inr ⟨_, trivial, hdaemon⟩
  | signal hdaemon hsignals hcond => exact Or.inr ⟨_, trivial, hdaemon⟩
  | silent hdaemon hsignals => exact Or.inr ⟨_, trivial, hdaemon⟩
  | take hw hwaiting hidle hdaemon => exact Or.inr ⟨_, trivial, hdaemon⟩
  | sleep hw hwaiting hidle hnone => exact Or.inl rfl
  | wake hw => exact Or.inl rfl

/-- When a thread waits, as many threads have been woken up as requests wait, and the threads at the
condition variable are idle. -/
structure Sound (n : ℕ) (s : Pool) : Prop where
  coherent : ∃ v chains, Renderd.Coherent s.daemon v chains
  covers : s.qCond.Covers s.daemon.noWaiting
  atVariable : ∀ w, s.qCond.At w → w < n ∧ s.daemon.workers w = .idle
  working : ∀ w, s.daemon.workers w ≠ .idle → w < n

theorem sound_init : Sound n (init m) where
  coherent := ⟨_, _, Renderd.coherent_init⟩
  covers := CondVar.Covers.init
  atVariable := by
    rintro w (h | h) <;> cases Finset.notMem_empty w h
  working := fun w h => absurd rfl h

/-- Every step keeps the daemon sound. -/
theorem Sound.step (h : Sound n s) (hstep : Step maps n s a t) :
  Sound n t
  := by
  obtain ⟨v, chains, hc⟩ := h.coherent
  have hcoherent : ∀ {a daemon}, s.daemon.step maps a = some daemon →
      ∃ v chains, Renderd.Coherent daemon v chains := by
    intro a daemon hdaemon
    obtain ⟨v', chains', -, hc'⟩ := Renderd.step_effect hc hdaemon
    exact ⟨v', chains', hc'⟩
  cases hstep with
  | other ha hdaemon =>
      obtain ⟨hsame, hidle, -⟩ := Renderd.other_spec hc ha h.working hdaemon
      constructor
      case coherent => exact hcoherent hdaemon
      case covers =>
        dsimp only
        rw [hsame]
        exact h.covers
      case atVariable => exact fun w hw => (h.atVariable w hw).imp_right (hidle w)
      case working => exact fun w hne => h.working w (mt (hidle w) hne)
  | signal hdaemon hsignals hcond =>
      obtain ⟨hmore, -, hworkers⟩ := Renderd.rxRequest_spec hc hdaemon
      rw [hsignals] at hmore
      constructor
      case coherent => exact hcoherent hdaemon
      case covers =>
        dsimp only
        rw [hmore]
        exact h.covers.signal hcond
      case atVariable =>
        intro w hw
        dsimp only
        rw [hworkers]
        exact h.atVariable w (hw.of_signal hcond)
      case working =>
        dsimp only
        rw [hworkers]
        exact h.working
  | silent hdaemon hsignals =>
      obtain ⟨hsame, -, hworkers⟩ := Renderd.rxRequest_spec hc hdaemon
      rw [hsignals] at hsame
      constructor
      case coherent => exact hcoherent hdaemon
      case covers =>
        dsimp only
        rw [hsame]
        exact h.covers
      case atVariable =>
        dsimp only
        rw [hworkers]
        exact h.atVariable
      case working =>
        dsimp only
        rw [hworkers]
        exact h.working
  | @take w daemon hw hwaiting hidle hdaemon =>
      obtain ⟨hless, -, -, hworkers⟩ := Renderd.fetch_spec hc hw hdaemon
      have hcovers := h.covers
      rw [← hless] at hcovers
      constructor
      case coherent => exact hcoherent hdaemon
      case covers => exact hcovers.leave
      case atVariable =>
        intro w' hw'
        have hne : w' ≠ w := by
          rintro rfl
          exact CondVar.not_at_leave hwaiting hw'
        dsimp only
        rw [hworkers w' hne]
        exact h.atVariable w' hw'.of_leave
      case working =>
        intro w' hne
        by_cases heq : w' = w
        · rw [heq]
          exact hw
        · rw [hworkers w' heq] at hne
          exact h.working w' hne
  | sleep hw hwaiting hidle hnone =>
      constructor
      case coherent => exact ⟨v, chains, hc⟩
      case covers =>
        dsimp only
        rw [hnone]
        exact CondVar.Covers.zero
      case atVariable =>
        intro w' hw'
        rcases hw'.of_wait with rfl | hw'
        · exact ⟨hw, hidle⟩
        · exact h.atVariable w' hw'
      case working => exact h.working
  | wake hw =>
      constructor
      case coherent => exact ⟨v, chains, hc⟩
      case covers => exact h.covers.wake
      case atVariable => exact fun w' hw' => h.atVariable w' (hw'.of_wake hw)
      case working => exact h.working

theorem sound_of_reach (h : Reach (step maps n) anyStep (init m) s) :
  Sound n s
  := h.invariant sound_init fun _ _ _ hs _ hstep => hs.step (Step.of_step hstep)

/-- A worker that does not wait can do something. -/
theorem exists_step_of_awake (hmaps : Renderd.ZoomsFit maps) (h : Sound n s) (hw : w < n)
    (hawake : w ∉ s.qCond.waiting) (o : RenderOutcome) :
  ∃ a t, step maps n s a = some t ∧ a.ofWorker = true
  := by
  obtain ⟨v, chains, hc⟩ := h.coherent
  cases hworker : s.daemon.workers w with
  | idle =>
      cases hfetch : s.daemon.step maps (.fetch w) with
      | none =>
          refine ⟨.fetch w, { s with qCond := s.qCond.wait w }, ?_, rfl⟩
          simp only [step, hworker, if_pos (And.intro hw hawake), hfetch]
      | some daemon =>
          refine ⟨.fetch w, { daemon := daemon, qCond := s.qCond.leave w }, ?_, rfl⟩
          simp only [step, hworker, if_pos (And.intro hw hawake), hfetch]
  | rendering p =>
      obtain ⟨daemon, hdaemon⟩ := Renderd.exists_finish hmaps hc hworker o
      refine ⟨.other (.finish w (.render o)), { s with daemon := daemon }, ?_, rfl⟩
      simp only [step, ThreadStep.isOther, if_true, hdaemon]
      rfl
  | responding rsp p =>
      have hrespond : ∃ daemon, s.daemon.step maps (.respond w) = some daemon := by
        cases p <;> simp [Renderd.step, hworker]
      obtain ⟨daemon, hdaemon⟩ := hrespond
      refine ⟨.other (.respond w), { s with daemon := daemon }, ?_, rfl⟩
      simp only [step, ThreadStep.isOther, if_true, hdaemon]
      rfl

/-- When all workers wait, no item is left. -/
theorem allocated_eq_nil (h : Sound n s) (hn : 0 < n) (hall : ∀ w < n, w ∈ s.qCond.waiting) :
  s.daemon.allocated = []
  := by
  obtain ⟨v, chains, hc⟩ := h.coherent
  have hidle : ∀ w, s.daemon.workers w = .idle := by
    intro w
    by_contra hne
    exact hne (h.atVariable w (Or.inl (hall w (h.working w hne)))).2
  have hawake : s.qCond.awake = ∅ := by
    apply Finset.eq_empty_of_forall_notMem
    intro w hw
    have hlt := (h.atVariable w (Or.inr hw)).1
    exact Finset.disjoint_left.mp s.qCond.disjoint (hall w hlt) hw
  have hnone : v.noWaiting = 0 := by
    have hle := h.covers ⟨0, hall 0 hn⟩
    rw [hawake, Finset.card_empty, hc.noWaiting] at hle
    exact Nat.le_zero.mp hle
  have hlisted : ∀ p, ¬ v.Listed p := by
    rintro p ⟨list, hp⟩
    by_cases hlist : list = .renderHead
    · subst hlist
      obtain ⟨w, hw⟩ := hc.rendering.mp (hc.queue.fetched.mpr hp)
      rw [hidle w] at hw
      cases hw
    · rw [View.lists_eq_nil_of_noWaiting hnone hlist] at hp
      cases hp
  rw [List.eq_nil_iff_forall_not_mem]
  intro p hp
  rcases hc.allocated.mp hp with haccepted | ⟨w, hchain⟩
  · rcases hc.queue.accepted.mp haccepted with hp | ⟨t, ht, -⟩
    · exact hlisted p hp
    · exact hlisted t ht
  · rw [hc.chain_eq_nil (p := p) (Or.inl (hidle w))] at hchain
    cases hchain

/-- Workers that wait can do nothing. -/
theorem not_ofWorker_of_waiting (h : Sound n s) (hall : ∀ w < n, w ∈ s.qCond.waiting)
    (hstep : step maps n s a = some t) :
  a.ofWorker = false
  := by
  have hidle : ∀ w, s.daemon.workers w = .idle := by
    intro w
    by_contra hne
    exact hne (h.atVariable w (Or.inl (hall w (h.working w hne)))).2
  cases Step.of_step hstep with
  | @other a daemon ha hdaemon =>
      cases a with
      | finish w job =>
          simp only [Renderd.step, hidle w] at hdaemon
          cases hdaemon
      | respond w =>
          simp only [Renderd.step, hidle w] at hdaemon
          cases hdaemon
      | fetch w => cases ha
      | _ => rfl
  | signal hdaemon hsignals hcond => rfl
  | silent hdaemon hsignals => rfl
  | take hw hwaiting hidle hdaemon => exact absurd (hall _ hw) hwaiting
  | sleep hw hwaiting hidle hnone => exact absurd (hall _ hw) hwaiting
  | wake hw => rfl

/-- In every run, when none of the workers can do anything, all of them wait at the condition
variable and nothing is left to do: every item has been freed, and every request for a rendering
whose connection is open has been answered, unless the main thread has just received it or is about
to answer it. -/
theorem answered_of_stuck (hn : 0 < n) (hmaps : Renderd.ZoomsFit maps)
    (h : Reach (step maps n) anyStep (init m) s)
    (hstuck : ∀ a t, step maps n s a = some t → a.ofWorker = false) :
  (∀ w < n, w ∈ s.qCond.waiting) ∧ s.daemon.allocated = [] ∧
    ∀ r rec, s.daemon.received[r]? = some rec → Protocol.isRender rec.req.cmd →
      s.daemon.Open rec → s.daemon.main.request ≠ some r → s.daemon.answers r = 1
  := by
  have hsound := sound_of_reach h
  have hall : ∀ w < n, w ∈ s.qCond.waiting := by
    intro w hw
    by_contra hawake
    obtain ⟨a, t, hstep, ha⟩ := exists_step_of_awake hmaps hsound hw hawake {
      rendered := false, tile := fun _ _ => [], renderTime := 0, allocated := false
      metatileWrite := 0, tryEnd := .completed }
    rw [hstuck a t hstep] at ha
    cases ha
  have hnil := allocated_eq_nil hsound hn hall
  refine ⟨hall, hnil, ?_⟩
  intro r rec hrec hcmd hopen hmain
  obtain ⟨-, -, ha⟩ := Renderd.reach_accounted (reach_daemon h)
  rcases Nat.le_one_iff_eq_zero_or_eq_one.mp (ha.once r) with hzero | hone
  · obtain ⟨o, howes⟩ := ha.complete hrec hcmd hopen hzero
    cases howes with
    | main hrequest => exact absurd hrequest hmain
    | item hp hfd hr =>
        rw [hnil] at hp
        cases hp
  · exact hone

/-- Two workers wait, a request comes in and wakes up the second one, which renders it, answers and
waits again. -/
def sampleSteps : List PoolStep :=
  [.fetch 0, .fetch 1, .other (.accept 5),
    .other (.receive 5 (Renderd.sampleRequest 1 (.replicate _ 0))), .rxRequest (some 0) (some 1),
    .fetch 1, .other (.finish 1 (.render (RenderThread.sampleOutcome true 532))),
    .other (.respond 1), .other (.respond 1), .fetch 1]

/-- The main thread is in the loop over the descriptors. -/
def isPolling (s : Pool) : Bool :=
  match s.daemon.main with
  | .polling => true
  | _ => false

theorem answered_of_stuck_sample :
  ∃ s, run (step [RenderThread.sampleMap] 2) (fun _ _ => true)
      (init fun _ => .sample .cmdIgnore 0 fdInvalid) sampleSteps = some s ∧
    s.daemon.allocated = [] ∧ s.daemon.answers 0 = 1
  := by
  have hrun : (run (step [RenderThread.sampleMap] 2) (fun _ _ => true)
      (init fun _ => .sample .cmdIgnore 0 fdInvalid) sampleSteps).map (fun s =>
        ((decide (s.qCond.waiting = {0, 1}), s.isPolling, s.daemon.conns 5),
          s.daemon.received[0]?.map fun rec =>
            (rec.fd, rec.conn, Protocol.isRender rec.req.cmd))) =
              some ((true, true, some 0), some (5, 0, true)) := by
    decide +kernel
  obtain ⟨s, hs, hmap⟩ := Option.map_eq_some_iff.mp hrun
  obtain ⟨hmap, hrec⟩ := Prod.mk.inj hmap
  obtain ⟨hwaiting, hmap⟩ := Prod.mk.inj hmap
  obtain ⟨hpolling, hconn⟩ := Prod.mk.inj hmap
  obtain ⟨rec, hrec, hmap⟩ := Option.map_eq_some_iff.mp hrec
  obtain ⟨hfd, hmap⟩ := Prod.mk.inj hmap
  obtain ⟨hrecConn, hcmd⟩ := Prod.mk.inj hmap
  have hmain : s.daemon.main = .polling := by
    unfold isPolling at hpolling
    split at hpolling
    · assumption
    · cases hpolling
  have hreach : Reach (step [RenderThread.sampleMap] 2) anyStep
      (init fun _ => .sample .cmdIgnore 0 fdInvalid) s := reach_of_run hs fun _ _ _ => trivial
  have hall : ∀ w < 2, w ∈ s.qCond.waiting := by
    rw [of_decide_eq_true hwaiting]
    decide
  have hmaps : Renderd.ZoomsFit [RenderThread.sampleMap] :=
    List.forall_mem_singleton.mpr (by decide)
  obtain ⟨-, hnil, hanswered⟩ := answered_of_stuck (by decide) hmaps hreach
    fun a t => not_ofWorker_of_waiting (sound_of_reach hreach) hall
  refine ⟨s, hs, hnil, hanswered 0 rec hrec hcmd ⟨?_, ?_⟩ ?_⟩
  · rw [hfd, hconn, hrecConn]
  · simp [hmain]
  · simp [hmain, MainThread.request]

/-! ### The workers come to a standstill -/

/-- What is left to do for the requests that wait, the items in memory and the workers. -/
def potential (n : ℕ) (s : Pool) : ℕ :=
  3 * s.daemon.noWaiting + s.daemon.allocated.length + Renderd.load n s.daemon.workers +
    (n - s.qCond.waiting.card)

theorem Sound.card_waiting_le (h : Sound n s) :
  s.qCond.waiting.card ≤ n
  := by
  rw [← Finset.card_range n]
  apply Finset.card_le_card
  intro w hw
  exact Finset.mem_range.mpr (h.atVariable w (Or.inl hw)).1

/-- A step of a worker leaves less to do, and another step adds five at most. -/
theorem potential_step (h : Sound n s) (hstep : Step maps n s a t) :
  (a.ofWorker = true → potential n t < potential n s) ∧ potential n t ≤ potential n s + 5
  := by
  have hcard := (h.step hstep).card_waiting_le
  obtain ⟨v, chains, hc⟩ := h.coherent
  cases hstep with
  | @other a daemon ha hdaemon =>
      obtain ⟨hsame, -, hless⟩ := Renderd.other_spec hc ha h.working hdaemon
      simp only [potential, hsame]
      refine ⟨fun hworker => ?_, by omega⟩
      rw [show a.ofWorker = true from hworker, Bool.toNat_true] at hless
      omega
  | signal hdaemon hsignals hcond =>
      obtain ⟨hmore, hallocated, hworkers⟩ := Renderd.rxRequest_spec hc hdaemon
      have hwaiting := CondVar.card_waiting_signal hcond
      rw [hsignals, Bool.toNat_true] at hmore
      simp only [potential, hmore, hworkers]
      refine ⟨fun hworker => absurd hworker Bool.false_ne_true, by omega⟩
  | silent hdaemon hsignals =>
      obtain ⟨hsame, hallocated, hworkers⟩ := Renderd.rxRequest_spec hc hdaemon
      rw [hsignals, Bool.toNat_false, Nat.add_zero] at hsame
      simp only [potential, hsame, hworkers]
      refine ⟨fun hworker => absurd hworker Bool.false_ne_true, by omega⟩
  | take hw hwaiting hidle hdaemon =>
      obtain ⟨hless, hload, hallocated, -⟩ := Renderd.fetch_spec hc hw hdaemon
      simp only [potential, hload, hallocated, CondVar.leave]
      refine ⟨fun _ => by omega, by omega⟩
  | @sleep w hw hwaiting hidle hnone =>
      have hwait : (s.qCond.wait w).waiting.card = s.qCond.waiting.card + 1 :=
        Finset.card_insert_of_notMem hwaiting
      simp only [hwait] at hcard
      simp only [potential, hwait]
      refine ⟨fun _ => by omega, by omega⟩
  | @wake w hw =>
      have hwake : s.qCond.waiting.card ≤ (s.qCond.wake w).waiting.card + 1 :=
        Nat.le_add_of_sub_le Finset.pred_card_le_card_erase
      simp only [potential]
      refine ⟨fun hworker => absurd hworker Bool.false_ne_true, by omega⟩

theorem potential_init : potential n (init m) = n := by
  simp [potential, init, Renderd.init, Renderd.noWaiting, QueueRun.init,
    RequestQueue.requestQueueInit, RequestQueue.noWaiting, fetchOrder, RequestQueue.num,
    Renderd.load, Worker.weight, CondVar.init]

/-- The workers take five steps at most for every step of the main thread and for every time that a
worker is woken up without a signal, apart from one step of each worker.  So they come to a
standstill when nothing else happens. -/
theorem countP_ofWorker_le {steps : List PoolStep}
    (h : run (step maps n) (fun _ _ => true) (init m) steps = some s) :
  steps.countP PoolStep.ofWorker ≤ n + 5 * steps.countP fun a => !a.ofWorker
  := by
  have hbound : steps.length + potential n s ≤
      potential n (init m) + 6 * steps.countP fun a => !a.ofWorker :=
    length_add_potential_le (f := potential n) (c := 5)
      (I := Reach (step maps n) anyStep (init m)) h Reach.refl
      (fun s a t hs hstep => hs.tail a trivial hstep)
      (fun s a t hs hstep ha => (potential_step (sound_of_reach hs) (Step.of_step hstep)).1
        (by simpa using ha))
      (fun s a t hs hstep _ => (potential_step (sound_of_reach hs) (Step.of_step hstep)).2)
  have hlength : steps.length =
      steps.countP PoolStep.ofWorker + steps.countP fun a => !a.ofWorker := by
    rw [List.length_eq_countP_add_countP PoolStep.ofWorker]
    simp
  rw [potential_init] at hbound
  omega

theorem countP_ofWorker_le_sampleSteps :
  ∃ s, run (step [RenderThread.sampleMap] 2) (fun _ _ => true)
      (init fun _ => .sample .cmdIgnore 0 fdInvalid) sampleSteps = some s ∧
    sampleSteps.countP PoolStep.ofWorker ≤ 2 + 5 * sampleSteps.countP fun a => !a.ofWorker
  := by
  have hrun : (run (step [RenderThread.sampleMap] 2) (fun _ _ => true)
      (init fun _ => .sample .cmdIgnore 0 fdInvalid) sampleSteps).isSome := by
    decide +kernel
  obtain ⟨s, hs⟩ := Option.isSome_iff_exists.mp hrun
  exact ⟨s, hs, countP_ofWorker_le hs⟩

end Pool
