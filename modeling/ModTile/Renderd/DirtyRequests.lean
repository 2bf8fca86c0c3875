import ModTile.Renderd.Answers

/-!
# Dirty requests and the messages for them

A request with the command `cmdDirty` asks for a metatile to be rendered at some time, and the
protocol has no response for it.  The item made for it has no descriptor, so that nothing is
sent when it has been rendered.  But `rx_request` returns `cmdNotDone` for a request that has
been put on the dirty list, and `process_loop` answers every request for which it gets this
value.  A dirty request is answered at once, unless it becomes a duplicate of an item that is
waiting for a client or being rendered.
-/

open Linked Transition RenderThread

/-- An item that carries this mark takes duplicates. -/
def QueueEnum.takesDuplicates : QueueEnum → Bool
  | .queueRender | .queueRequest | .queueRequestPrio | .queueRequestLow => true
  | _ => false

namespace Represents

open RequestQueue

variable {q : RequestQueue} {v : View} {p : Ptr}

/-- A dirty request is reported as not done, unless an item with its key takes duplicates. -/
theorem status_addRequest_of_dirty (hr : Represents q v) (hcmd : (q.heap p).req.cmd = .cmdDirty) :
  (q.requestQueueAddRequest p).status = .cmdNotDone ↔
    ¬ ∃ t, v.Listed t ∧ (q.heap t).inQueue.takesDuplicates ∧ (q.heap p).key = (q.heap t).key
  := by
  rw [addRequest_eq]
  cases hlookup : lookupItemIdx q (q.heap p) with
  | none =>
      have hkeys := (hr.lookup_eq_none_iff _).mp hlookup
      have hstatus : (q.addNew p).status = .cmdNotDone := by
        simp only [addNew, hcmd, ListHead.ofCmd, ne_eq, not_true_eq_false, false_and, if_false]
        split <;> rfl
      simp only [hstatus, true_iff]
      rintro ⟨t, ht, -, hkey⟩
      apply hkeys t ht hkey
  | some t =>
      obtain ⟨⟨list, ht⟩, hkey⟩ := (hr.lookup_eq_some_iff _).mp hlookup
      have hunique : (∃ t', v.Listed t' ∧ (q.heap t').inQueue.takesDuplicates ∧
          (q.heap p).key = (q.heap t').key) ↔ (q.heap t).inQueue.takesDuplicates := by
        constructor
        · rintro ⟨t', ht', htakes, hkey'⟩
          rw [hr.keyUnique ⟨list, ht⟩ ht' (hkey.symm.trans hkey')]
          apply htakes
        · intro htakes
          exact ⟨t, ⟨list, ht⟩, htakes, hkey⟩
      rw [hunique, hr.inQueue ht]
      cases list <;> simp [ListHead.inQueue, QueueEnum.takesDuplicates, hr.inQueue ht]

end Represents

namespace Renderd

/-- The key of the item that `rx_request` makes for a request. -/
def requestKey (req : Protocol) : Key where
  mx := metatileOrigin req.x
  my := metatileOrigin req.y
  z := req.z
  xmlname := (upgrade req).xmlnameString

/-- An item for the metatile of the request is being rendered, or it waits on one of the lists of
requests for which a client may be waiting. -/
def Pending (s : Renderd) (req : Protocol) : Prop :=
  ∃ p ∈ s.queue.accepted, (s.heap p).inQueue.takesDuplicates ∧ (s.heap p).key = requestKey req

/-- The dirty request becomes a duplicate of another item. -/
def Joins (s : Renderd) (req : Protocol) (address : Option ℕ) : Prop :=
  ¬ req.ver > 3 ∧ address.isSome ∧ s.Pending req

/-- If the step is the call of `rx_request` for a dirty request, then the request becomes a
duplicate of another item. -/
def JoinsDirty (s : Renderd) : ThreadStep → Prop
  | .rxRequest address =>
      match s.main with
      | .received _ req _ => req.cmd = .cmdDirty → s.Joins req address
      | _ => True
  | _ => True

instance (s : Renderd) (req : Protocol) : Decidable (s.Pending req) :=
  inferInstanceAs (Decidable (∃ p ∈ s.queue.accepted,
    (s.heap p).inQueue.takesDuplicates ∧ (s.heap p).key = requestKey req))

instance (s : Renderd) (req : Protocol) (address : Option ℕ) : Decidable (s.Joins req address) :=
  inferInstanceAs (Decidable (_ ∧ _ ∧ _))

instance (s : Renderd) : (a : ThreadStep) → Decidable (s.JoinsDirty a)
  | .rxRequest address =>
      match hmain : s.main with
      | .received _ req _ =>
          decidable_of_iff (req.cmd = .cmdDirty → s.Joins req address) (by
            rw [JoinsDirty, hmain])
      | .polling | .notDone .. | .closing .. => isTrue (by
          rw [JoinsDirty, hmain]
          trivial)
  | .accept _ | .receive .. | .sendNotDone | .clear _ | .close | .fetch _ | .finish ..
  | .respond _ => instDecidableTrue

variable {maps : List XmlMapConfig} {s s' : Renderd} {v v' : View} {chains chains' : ℕ → List Ptr}
  {m : Heap} {a : ThreadStep} {request : ℕ} {req : Protocol} {fd : ℤ}

theorem key_newItem (old : Item) (req : Protocol) (fd : ℤ) :
  (newItem old (upgrade req) fd).key = requestKey req
  := by
  have hx : (upgrade req).x = req.x := by rw [upgrade_eq]
  have hy : (upgrade req).y = req.y := by rw [upgrade_eq]
  have hz : (upgrade req).z = req.z := by rw [upgrade_eq]
  simp [newItem, Item.key, requestKey, hx, hy, hz]

/-- What the queue says to a dirty request. -/
theorem Coherent.status_of_dirty {n : ℕ} {item : Item} (hc : Coherent s v chains)
    (hfree : .item n ∉ s.allocated) (hcmd : req.cmd = .cmdDirty)
    (hitem : item = newItem (s.heap (.item n)) (upgrade req) fd) :
  (s.queue.added n item).status = .cmdNotDone ↔ ¬ s.Pending req
  := by
  have hn : ¬ v.Held (.item n) := by
    intro h
    apply hfree (hc.mem_allocated_of_accepted (hc.queue.accepted.mpr h))
  have hr := hc.queue.represents.write hn item
  have hcmd' : ((s.queue.queue.write n item).heap (.item n)).req.cmd = .cmdDirty := by
    rw [RequestQueue.heap_write_self, hitem]
    simp [newItem, upgrade_cmd, hcmd]
  rw [QueueRun.added, hr.status_addRequest_of_dirty hcmd', RequestQueue.heap_write_self, hitem,
    key_newItem, not_iff_not]
  have hheap : ∀ t, v.Held t → (s.queue.queue.write n item).heap t = s.heap t := by
    intro t ht
    apply RequestQueue.heap_write_of_ne
    rintro rfl
    apply hn ht
  constructor
  · rintro ⟨t, ht, htakes, hkey⟩
    rw [← hitem, hheap t (Or.inl ht)] at htakes hkey
    exact ⟨t, hc.queue.accepted.mpr (Or.inl ht), htakes, hkey.symm⟩
  · rintro ⟨t, ht, htakes, hkey⟩
    have hheld := hc.queue.accepted.mp ht
    rw [← hitem]
    refine ⟨t, ?_, ?_, ?_⟩
    · rcases hheld with hl | ⟨t', ht', hd⟩
      · apply hl
      · have hqueue := hc.queue.represents.dupQueue ht' hd
        rw [heap, hqueue] at htakes
        cases htakes
    · rw [hheap t hheld]
      apply htakes
    · rw [hheap t hheld, hkey]

/-- A dirty request becomes a duplicate, or it is about to be answered. -/
theorem Coherent.rxRequest_dirty {address : Option ℕ} (hc : Coherent s v chains)
    (hmain : s.main = .received request req fd) (hcmd : req.cmd = .cmdDirty)
    (hstep : step maps s (.rxRequest address) = some s') :
  s.Joins req address ∧ s'.main = .polling ∨
    ¬ s.Joins req address ∧ s'.main = .notDone request (upgrade req) fd
  := by
  have hver : (upgrade req).ver = req.ver := by rw [upgrade_eq]
  simp only [step, hmain, rxRequest, hver, upgrade_cmd, hcmd] at hstep
  split at hstep
  · rename_i hbad
    obtain rfl := Option.some.inj hstep
    right
    constructor
    · intro hj
      rcases hbad with hbad | hbad
      · apply hj.1 hbad
      · simp [acceptsCmd] at hbad
    · rfl
  · rename_i hgood
    rw [not_or] at hgood
    cases address with
    | none =>
        obtain rfl := Option.some.inj hstep
        right
        constructor
        · intro hj
          cases hj.2.1
        · rfl
    | some n =>
        dsimp only at hstep
        split at hstep
        · cases hstep
        · rename_i hfree
          simp only [Option.bind_eq_bind, Option.pure_def, Option.bind_eq_some_iff,
            Option.some.injEq] at hstep
          obtain ⟨queue, -, rfl⟩ := hstep
          have hstatus : (s.queue.added n (newItem (s.heap (.item n)) (upgrade req) fd)).status
              = .cmdNotDone ↔ ¬ s.Pending req := hc.status_of_dirty hfree hcmd rfl
          by_cases hpending : s.Pending req
          · left
            use ⟨hgood.1, rfl, hpending⟩
            apply if_neg
            rw [hstatus, not_not]
            apply hpending
          · right
            constructor
            · intro hj
              apply hpending hj.2.2
            · apply if_pos
              rw [hstatus]
              apply hpending

/-- No message has been sent for a dirty request, and none is about to be sent at once. -/
structure Silent (s : Renderd) : Prop where
  sent : ∀ {e rec}, e ∈ s.sent → s.received[e.request]? = some rec → rec.req.cmd ≠ .cmdDirty
  notDone : ∀ {r req fd rec}, s.main = .notDone r req fd → s.received[r]? = some rec →
    rec.req.cmd ≠ .cmdDirty

theorem silent_init :
  Silent (init m)
  := by
  constructor <;> simp [init]

namespace Silent

/-- A step that sends nothing, and after which the main thread is not about to answer. -/
theorem of_eq (hs : Silent s) (hsent : s'.sent = s.sent) (hreceived : s'.received = s.received)
    (hmain : ∀ {r req fd}, s'.main ≠ .notDone r req fd) :
  Silent s'
  := by
  constructor
  case sent =>
    rw [hsent, hreceived]
    exact hs.sent
  case notDone =>
    intro r req fd rec h
    apply absurd h hmain

/-- A step of a worker that sends nothing. -/
theorem of_worker (hs : Silent s) (hsent : s'.sent = s.sent) (hreceived : s'.received = s.received)
    (hmain : s'.main = s.main) :
  Silent s'
  := by
  constructor
  case sent =>
    rw [hsent, hreceived]
    exact hs.sent
  case notDone =>
    rw [hmain, hreceived]
    exact hs.notDone

/-- A call of `rx_request` for a request that is not dirty, or is not about to be answered. -/
theorem rxRequest (hs : Silent s) (hr : Recorded s) (hmain : s.main = .received request req fd)
    (hsent : s'.sent = s.sent) (hreceived : s'.received = s.received)
    (hmain' : s'.main = .polling ∨
      s'.main = .notDone request (upgrade req) fd ∧ req.cmd ≠ .cmdDirty) :
  Silent s'
  := by
  rcases hmain' with hmain' | ⟨hmain', hcmd⟩
  · apply hs.of_eq hsent hreceived
    simp [hmain']
  · constructor
    case sent =>
      rw [hsent, hreceived]
      exact hs.sent
    case notDone =>
      intro r req' fd' rec h hrec
      rw [hmain'] at h
      obtain ⟨rfl, -, -⟩ := MainThread.notDone.inj h
      obtain ⟨conn, hrec', -⟩ := hr.mainReceived hmain
      rw [hreceived, hrec'] at hrec
      obtain rfl := Option.some.inj hrec
      apply hcmd

/-- One more message, for a request that is not dirty. -/
theorem send (hs : Silent s) {e : Sent} (hsent : s'.sent = s.sent ++ [e])
    (hreceived : s'.received = s.received)
    (he : ∀ {rec}, s.received[e.request]? = some rec → rec.req.cmd ≠ .cmdDirty)
    (hmain : ∀ {r req fd}, s'.main = .notDone r req fd → s.main = .notDone r req fd) :
  Silent s'
  := by
  constructor
  case sent =>
    intro e' rec he' hrec
    rw [hreceived] at hrec
    rw [hsent, List.mem_append, List.mem_singleton] at he'
    rcases he' with he' | rfl
    · apply hs.sent he' hrec
    · apply he hrec
  case notDone =>
    intro r req fd rec h hrec
    rw [hreceived] at hrec
    apply hs.notDone (hmain h) hrec

/-- The main thread after the call of `rx_request`, if dirty requests become duplicates. -/
theorem main_of_joins {address : Option ℕ} (hc : Coherent s v chains)
    (hmain : s.main = .received request req fd) (hok : s.JoinsDirty (.rxRequest address))
    (hstep : step maps s (.rxRequest address) = some s')
    (hmain' : s'.main = .polling ∨ s'.main = .notDone request (upgrade req) fd) :
  s'.main = .polling ∨ s'.main = .notDone request (upgrade req) fd ∧ req.cmd ≠ .cmdDirty
  := by
  by_cases hcmd : req.cmd = .cmdDirty
  · left
    simp only [JoinsDirty, hmain] at hok
    rcases hc.rxRequest_dirty hmain hcmd hstep with ⟨-, h⟩ | ⟨h, -⟩
    · apply h
    · exact absurd (hok hcmd) h
  · rcases hmain' with h | h
    · exact Or.inl h
    · exact Or.inr ⟨h, hcmd⟩

/-- While dirty requests become duplicates, every step keeps the silence. -/
theorem effect (hs : Silent s) (hr : Recorded s) (hc : Coherent s v chains)
    (hok : s.JoinsDirty a) (hstep : step maps s a = some s')
    (he : Effect maps s v chains a s' v' chains') :
  Silent s'
  := by
  cases he with
  | accept hmain hfd hclosed => exact hs.of_eq rfl rfl (by simp)
  | @receive fd req conn hmain hopen =>
      constructor
      case sent =>
        intro e rec he hrec
        obtain ⟨rec', hrec'⟩ := hr.sent he
        dsimp only at hrec
        rw [getElem?_append_of_some hrec'] at hrec
        obtain rfl := Option.some.inj hrec
        apply hs.sent he hrec'
      case notDone =>
        intro r req' fd' rec h
        cases h
  | refuse hmain =>
      refine hs.rxRequest hr hmain rfl rfl ?_
      apply main_of_joins hc hmain hok hstep (Or.inr rfl)
  | @add request req fd n item r v' hmain hcmd hfree hitem hadded ho =>
      refine hs.rxRequest hr hmain rfl rfl ?_
      apply main_of_joins hc hmain hok hstep
      dsimp only [afterAdd]
      split
      · exact Or.inr rfl
      · exact Or.inl rfl
  | sendNotDone hmain => exact hs.send rfl rfl (hs.notDone hmain) (by simp)
  | clear hmain hopen hheap => exact hs.of_eq rfl rfl (by simp)
  | close hmain => exact hs.of_eq rfl rfl (by simp)
  | fetch hworker hlist hp => exact hs.of_worker rfl rfl rfl
  | finish hworker hp hresponses hq => exact hs.of_worker rfl rfl rfl
  | respondEnd hworker => exact hs.of_worker rfl rfl rfl
  | @respond worker rsp p l hworker hchain =>
      rw [sendItem_eq, sent_sendItem]
      split
      · rename_i hsend
        refine hs.send rfl rfl ?_ id
        intro rec hrec
        have hp : p ∈ chains worker := by
          rw [hchain]
          apply List.mem_cons_self
        obtain ⟨rec', hrec', -, hrender⟩ := hr.item (hc.mem_allocated_of_chain hp) hsend.1
        rw [hrec'] at hrec
        obtain rfl := Option.some.inj hrec
        intro hdirty
        simp [hdirty, Protocol.isRender] at hrender
      · exact hs.of_worker rfl rfl rfl

end Silent

/-- In runs in which every dirty request becomes a duplicate of another item, no message is sent
for a dirty request.  In every state of such a run, a dirty request that becomes a duplicate is
dealt with silently, and for every other one the main thread goes on to send a message. -/
theorem dirty_requests_silent (h : Reach (step maps) JoinsDirty (init m) s) :
  (∀ e ∈ s.sent, ∀ rec, s.received[e.request]? = some rec → rec.req.cmd ≠ .cmdDirty) ∧
    ∀ request req fd address s', s.main = .received request req fd → req.cmd = .cmdDirty →
      step maps s (.rxRequest address) = some s' →
      s.Joins req address ∧ s'.main = .polling ∨
        ¬ s.Joins req address ∧ s'.main = .notDone request (upgrade req) fd
  := by
  have hinv : (∃ v chains, Coherent s v chains) ∧ Recorded s ∧ Silent s := by
    apply h.invariant ⟨⟨_, _, coherent_init⟩, recorded_init, silent_init⟩
    rintro t a u ⟨⟨v, chains, hc⟩, hr, hs⟩ hok hstep
    obtain ⟨v', chains', he, hc'⟩ := step_effect hc hstep
    exact ⟨⟨v', chains', hc'⟩, hr.effect hc he, hs.effect hr hc hok hstep he⟩
  obtain ⟨⟨v, chains, hc⟩, -, hs⟩ := hinv
  constructor
  · intro e he rec hrec
    apply hs.sent he hrec
  · intro request req fd address s' hmain hcmd hstep
    apply hc.rxRequest_dirty hmain hcmd hstep

/-- A request to mark a metatile as dirty. -/
def sampleDirty (x : Int32) : Protocol :=
  { sampleRequest x (.replicate _ 0) with cmd := .cmdDirty }

/-- A client asks for a tile and marks another tile of the same metatile as dirty while it is
waiting, and the metatile is rendered. -/
theorem dirty_requests_silent_duplicate :
  ∃ s, run (step [sampleMap]) (fun s a => decide (s.JoinsDirty a)) sampleInit
      [.accept 5, .receive 5 (sampleRequest 1 (.replicate _ 0)), .rxRequest (some 0),
       .receive 5 (sampleDirty 2), .rxRequest (some 1), .fetch 0,
       .finish 0 (.render (sampleOutcome true 532)), .respond 0, .respond 0] = some s ∧
    s.sent.map (fun e => e.request) = [0] ∧ s.received.length = 2 ∧
    ∀ e ∈ s.sent, ∀ rec, s.received[e.request]? = some rec → rec.req.cmd ≠ .cmdDirty
  := by
  have hrun : (run (step [sampleMap]) (fun s a => decide (s.JoinsDirty a)) sampleInit
      [.accept 5, .receive 5 (sampleRequest 1 (.replicate _ 0)), .rxRequest (some 0),
       .receive 5 (sampleDirty 2), .rxRequest (some 1), .fetch 0,
       .finish 0 (.render (sampleOutcome true 532)), .respond 0, .respond 0]).map
      (fun s => (s.sent.map (fun e => e.request), s.received.length)) = some ([0], 2) := by
    decide +kernel
  obtain ⟨s, hs, h⟩ := Option.map_eq_some_iff.mp hrun
  obtain ⟨hsent, hreceived⟩ := Prod.mk.inj h
  use s, hs, hsent, hreceived
  apply (dirty_requests_silent (reach_of_run hs fun _ _ => of_decide_eq_true)).1

/-- A dirty request to a daemon with an empty queue is put on the dirty list, and answered. -/
theorem dirty_request_answered :
  (run (step [sampleMap]) (fun _ _ => true) sampleInit
      [.accept 5, .receive 5 (sampleDirty 1), .rxRequest (some 0), .sendNotDone]).map
    (fun s => (s.queue.queue.dirtyNum, s.received.map (fun rec => rec.req.cmd),
      s.sent.map (fun e => (e.request, e.message.cmd, e.fd))))
    = some (1, [.cmdDirty], [(0, .cmdNotDone, 5)])
  := by
  decide +kernel

end Renderd
