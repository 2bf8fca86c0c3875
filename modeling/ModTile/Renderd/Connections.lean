import ModTile.Renderd.Answers

/-!
# Responses and the connections they are sent to

Before the main thread closes a descriptor it clears it from the items of the queue, so that
nobody sends to it any more.  Items that a worker has removed from the queue and not yet
responded to are out of its reach.  When no such item has the descriptor, every message is
sent to the connection from which its request came; otherwise the descriptor can be in use
again for another connection when the message is sent.
-/

open Transition RenderThread

namespace Renderd

/-- A descriptor is cleared only when no item with this descriptor has been removed from the queue
and not yet been responded to. -/
def ClearsAll (s : Renderd) : ThreadStep → Prop
  | .clear fd => ∀ p ∈ s.allocated, p ∉ s.queue.accepted → (s.heap p).fd ≠ fd
  | _ => True

instance (s : Renderd) (a : ThreadStep) : Decidable (s.ClearsAll a) := by
  cases a <;> unfold ClearsAll <;> infer_instance

/-- The items are for requests whose connections are open, and the messages went to the
connections of their requests. -/
structure Routed (s : Renderd) : Prop where
  item : ∀ {r : ℕ} {p : Ptr} {rec : Received}, Owes s r (some p) → s.received[r]? = some rec →
    s.Open rec
  sent : ∀ {e : Sent} {rec : Received}, e ∈ s.sent → s.received[e.request]? = some rec →
    e.conn = some rec.conn

variable {maps : List XmlMapConfig} {s s' : Renderd} {v v' : View} {chains chains' : ℕ → List Ptr}
  {p : Ptr} {m : Heap} {a : ThreadStep} {r : ℕ} {e : Sent}

theorem routed_init :
  Routed (init m)
  := by
  constructor
  case item =>
    intro r p rec ho
    simp [owes_some_iff, init] at ho
  case sent => simp [init]

/-- What the items owe does not change when the items do not. -/
theorem Owes.of_items (ho : Owes s' r (some p)) (hallocated : s'.allocated = s.allocated)
    (hqueue : s'.queue = s.queue) (hrequestOf : s'.requestOf = s.requestOf) :
  Owes s r (some p)
  := (owes_some_congr hallocated hqueue hrequestOf).mp ho

namespace Recorded

/-- The descriptor of an item that owes an answer is that of the request. -/
theorem fd_eq_of_owes {rec : Received} (hr : Recorded s) (ho : Owes s r (some p))
    (hrec : s.received[r]? = some rec) :
  (s.heap p).fd = rec.fd
  := by
  obtain ⟨hp, hfd, rfl⟩ := owes_some_iff.mp ho
  obtain ⟨rec', hrec', hcontent, -⟩ := hr.item hp hfd
  obtain rfl := Option.some.inj (hrec.symm.trans hrec')
  apply congrArg Content.fd hcontent

end Recorded

namespace Routed

open RequestQueue

/-- A step that sends nothing and makes no item owe an answer. -/
theorem of_owes (ha : Routed s) (hr : Recorded s) (hsent : s'.sent = s.sent)
    (hreceived : ∃ l, s'.received = s.received ++ l)
    (howes : ∀ {r p}, Owes s' r (some p) → Owes s r (some p))
    (hopen : ∀ {r p rec}, Owes s' r (some p) → s.received[r]? = some rec → s.Open rec →
      s'.Open rec) :
  Routed s'
  := by
  obtain ⟨l, hl⟩ := hreceived
  have hold : ∀ {r : ℕ} {rec rec' : Received}, s'.received[r]? = some rec →
      s.received[r]? = some rec' → s.received[r]? = some rec := by
    intro r rec rec' hrec hrec'
    have h : s'.received[r]? = some rec' := by
      rw [hl]
      apply getElem?_append_of_some hrec'
    rw [hrec', ← h, hrec]
  constructor
  case item =>
    intro r p rec ho hrec
    obtain ⟨hp, hfd, hreq⟩ := owes_some_iff.mp (howes ho)
    obtain ⟨rec', hrec', -⟩ := hr.item hp hfd
    rw [hreq] at hrec'
    have hrec := hold hrec hrec'
    apply hopen ho hrec (ha.item (howes ho) hrec)
  case sent =>
    intro e rec he hrec
    rw [hsent] at he
    obtain ⟨rec', hrec'⟩ := hr.sent he
    apply ha.sent he (hold hrec hrec')

/-- A step that sends a message to the connection of its request. -/
theorem send {rec₀ : Received} (ha : Routed s) (hsent : s'.sent = s.sent ++ [e])
    (hreceived : s'.received = s.received) (hrec₀ : s.received[e.request]? = some rec₀)
    (hconn : e.conn = some rec₀.conn)
    (howes : ∀ {r p}, Owes s' r (some p) → Owes s r (some p))
    (hopen : ∀ {rec}, s.Open rec → s'.Open rec) :
  Routed s'
  := by
  constructor
  case item =>
    intro r p rec ho hrec
    rw [hreceived] at hrec
    apply hopen (ha.item (howes ho) hrec)
  case sent =>
    intro e' rec he hrec
    rw [hreceived] at hrec
    rw [hsent] at he
    rcases List.mem_append.mp he with he | he
    · apply ha.sent he hrec
    · obtain rfl := List.mem_singleton.mp he
      obtain rfl := Option.some.inj (hrec.symm.trans hrec₀)
      apply hconn

/-- A step of a worker that changes neither the content of items nor the history. -/
theorem of_eq (ha : Routed s) (hr : Recorded s) (hmain : s'.main = s.main)
    (hallocated : s'.allocated = s.allocated)
    (hheap : ∀ {p}, (s'.heap p).content = (s.heap p).content)
    (hrequestOf : s'.requestOf = s.requestOf) (hreceived : s'.received = s.received)
    (hconns : s'.conns = s.conns) (hsent : s'.sent = s.sent) :
  Routed s'
  := by
  apply ha.of_owes hr hsent ⟨[], by rw [hreceived, List.append_nil]⟩
  · intro r p ho
    rw [owes_some_iff, hallocated, hrequestOf, Item.fd_congr hheap] at ho
    apply owes_some_iff.mpr ho
  · intro r p rec _ _ hopen
    constructor
    · rw [hconns]
      apply hopen.conn
    · rw [hmain]
      apply hopen.main

/-- The main thread passes a request to the queue. -/
theorem add {request : ℕ} {req : Protocol} {fd : ℤ} {n : ℕ} {item : Item} {res : Added}
    (ha : Routed s) (hr : Recorded s) (hmain : s.main = .received request req fd)
    (ho : AddOutcome (s.queue.queue.write n item) v n res v') :
  Routed (s.afterAdd request (upgrade req) fd n res)
  := by
  have hclosing : ∀ fd', (s.afterAdd request (upgrade req) fd n res).main ≠ .closing fd' := by
    intro fd'
    dsimp only [afterAdd]
    split <;> simp
  constructor
  case item =>
    intro r p rec ho' hrec
    refine ⟨?_, hclosing _⟩
    obtain ⟨hp, hfd, hreq⟩ := owes_some_iff.mp ho'
    dsimp only [afterAdd, heap] at hp hfd hreq hrec ⊢
    by_cases hpn : p = .item n
    · subst hpn
      rw [Function.update_self] at hreq
      subst hreq
      obtain ⟨conn, hrec', hopen⟩ := hr.mainReceived hmain
      obtain rfl := Option.some.inj (hrec.symm.trans hrec')
      apply hopen
    · have hp' : p ∈ s.allocated := by
        split at hp
        · apply hp
        · apply (List.mem_cons.mp hp).resolve_left hpn
      rw [Item.fd_congr (ho.content_of_ne hpn), heap_write_of_ne hpn] at hfd
      rw [Function.update_of_ne hpn] at hreq
      apply (ha.item (owes_some_iff.mpr ⟨hp', hfd, hreq⟩) hrec).conn
  case sent => exact ha.sent

/-- Every step keeps the messages on their connections, if descriptors are cleared from all
items. -/
theorem effect (ha : Routed s) (hr : Recorded s) (hc : Coherent s v chains)
    (he : Effect maps s v chains a s' v' chains') (hok : s.ClearsAll a) :
  Routed s'
  := by
  cases he with
  | @accept fd hmain hfd hclosed =>
      refine ha.of_owes hr rfl ⟨[], (List.append_nil _).symm⟩ (fun ho => ho.of_items rfl rfl rfl) ?_
      intro r p rec _ hrec hopen
      constructor
      · have hne : rec.fd ≠ fd := by
          rintro rfl
          have hconn := hopen.conn
          rw [hclosed] at hconn
          simp at hconn
        dsimp only
        rw [Function.update_of_ne hne]
        apply hopen.conn
      · simp
  | @receive fd req conn hmain hopen =>
      refine ha.of_owes hr rfl ⟨_, rfl⟩ (fun ho => ho.of_items rfl rfl rfl) ?_
      intro r p rec _ hrec hopen
      use hopen.conn
      simp
  | @refuse request req fd address hmain =>
      refine ha.of_owes hr rfl ⟨[], (List.append_nil _).symm⟩ (fun ho => ho.of_items rfl rfl rfl) ?_
      intro r p rec _ hrec hopen
      use hopen.conn
      simp
  | add hmain hcmd hfree hitem hadded ho => apply ha.add hr hmain ho
  | @sendNotDone request req fd hmain =>
      obtain ⟨rec, hrec, rfl, hconn⟩ := hr.mainNotDone hmain
      refine ha.send rfl rfl hrec hconn (fun ho => ho.of_items rfl rfl rfl) ?_
      intro rec' hopen
      use hopen.conn
      simp
  | @clear fd conn q' hmain hopen hheap =>
      have hfds : ∀ {r p}, Owes { s with
          queue := { s.queue with queue := q' }, main := .closing fd } r (some p) →
          Owes s r (some p) ∧ (s.heap p).fd ≠ fd := by
        intro r p ho
        obtain ⟨hp, hfd, hreq⟩ := owes_some_iff.mp ho
        dsimp only [heap] at hp hfd hreq
        rw [hheap] at hfd
        split at hfd
        · simp at hfd
        · rename_i h
          use owes_some_iff.mpr ⟨hp, hfd, hreq⟩
          intro hfd'
          by_cases hacc : p ∈ s.queue.accepted
          · apply h ⟨hacc, hfd'⟩
          · apply hok p hp hacc hfd'
      refine ha.of_owes hr rfl ⟨[], (List.append_nil _).symm⟩ (fun ho => (hfds ho).1) ?_
      intro r p rec ho hrec hopen
      obtain ⟨ho, hne⟩ := hfds ho
      use hopen.conn
      intro h
      rw [hr.fd_eq_of_owes ho hrec] at hne
      apply hne (MainThread.closing.inj h).symm
  | @close fd hmain =>
      refine ha.of_owes hr rfl ⟨[], (List.append_nil _).symm⟩ (fun ho => ho.of_items rfl rfl rfl) ?_
      intro r p rec _ hrec hopen
      constructor
      · have hne : rec.fd ≠ fd := by
          rintro rfl
          apply hopen.main hmain
        dsimp only
        rw [Function.update_of_ne hne]
        apply hopen.conn
      · simp
  | fetch hworker hlist hp => exact ha.of_eq hr rfl rfl content_fetchFrom rfl rfl rfl rfl
  | finish hworker hp hresponses hq =>
      exact ha.of_eq hr rfl rfl (content_removeRequest hq) rfl rfl rfl rfl
  | respondEnd hworker => exact ha.of_eq hr rfl rfl rfl rfl rfl rfl rfl
  | @respond worker rsp p l hworker hchain =>
      have hp : p ∈ s.allocated := by
        apply hc.mem_allocated_of_chain (w := worker)
        rw [hchain]
        apply List.mem_cons_self
      have howes : ∀ {r x}, Owes (s.sendItem worker rsp p) r (some x) → Owes s r (some x) := by
        intro r x ho
        rw [sendItem_eq] at ho
        obtain ⟨hx, hfd, hreq⟩ := owes_some_iff.mp ho
        exact owes_some_iff.mpr ⟨List.mem_of_mem_erase hx, hfd, hreq⟩
      have hopen : ∀ {rec}, s.Open rec → (s.sendItem worker rsp p).Open rec := by
        intro rec h
        rw [sendItem_eq]
        exact ⟨h.conn, h.main⟩
      have hreceived : (s.sendItem worker rsp p).received = s.received := by rw [sendItem_eq]
      have hsent := sent_sendItem s worker rsp p
      split at hsent
      · rename_i hsend
        have ho : Owes s (s.requestOf p) (some p) := owes_some_iff.mpr ⟨hp, hsend.1, rfl⟩
        obtain ⟨rec, hrec, hcontent, -⟩ := hr.item hp hsend.1
        have hconn : s.conns (s.heap p).fd = some rec.conn := by
          rw [hr.fd_eq_of_owes ho hrec]
          apply (ha.item ho hrec).conn
        apply ha.send hsent hreceived hrec hconn howes hopen
      · apply ha.of_owes hr hsent ⟨[], by rw [hreceived, List.append_nil]⟩ howes
        intro r x rec _ _
        apply hopen

end Routed

/-- In every run in which descriptors are cleared from all items, every message is sent to the
connection from which its request was received. -/
theorem sent_to_own_connection (h : Reach (step maps) ClearsAll (init m) s) (he : e ∈ s.sent) :
  ∃ rec, s.received[e.request]? = some rec ∧ e.conn = some rec.conn
  := by
  have hinv : (∃ v chains, Coherent s v chains) ∧ Recorded s ∧ Routed s := by
    apply h.invariant ⟨⟨_, _, coherent_init⟩, recorded_init, routed_init⟩
    rintro t a u ⟨⟨v, chains, hc⟩, hr, ha⟩ hok hstep
    obtain ⟨v', chains', heffect, hc'⟩ := step_effect hc hstep
    exact ⟨⟨v', chains', hc'⟩, hr.effect hc heffect, ha.effect hr hc heffect hok⟩
  obtain ⟨-, hr, ha⟩ := hinv
  obtain ⟨rec, hrec⟩ := hr.sent he
  exact ⟨rec, hrec, ha.sent he hrec⟩

/-- Two clients get their answers, and one of them closes its connection. -/
def sampleClosing : List ThreadStep :=
  sampleActions (.replicate _ 0) ++ [.respond 0, .clear 5, .close, .accept 5]

theorem sent_to_own_connection_sample :
  ∃ s e rec, run (step [sampleMap]) (fun s a => s.ClearsAll a) sampleInit sampleClosing = some s ∧
    e ∈ s.sent ∧ s.received[e.request]? = some rec ∧ e.conn = some rec.conn
  := by
  have hrun : (run (step [sampleMap]) (fun s a => s.ClearsAll a) sampleInit sampleClosing).map
      (fun s => s.sent.length) = some 2 := by
    decide +kernel
  obtain ⟨s, hs, hlen⟩ := Option.map_eq_some_iff.mp hrun
  obtain ⟨e, he⟩ := List.exists_mem_of_length_pos (Nat.lt_of_lt_of_eq Nat.two_pos hlen.symm)
  have hreach : Reach (step [sampleMap]) ClearsAll sampleInit s :=
    reach_of_run hs fun _ _ h => of_decide_eq_true h
  obtain ⟨rec, hrec, hconn⟩ := sent_to_own_connection hreach he
  exact ⟨s, e, rec, hs, he, hrec, hconn⟩

/-- The client of the first connection leaves after its item has been removed from the queue, and
the descriptor is given to the third connection, which gets the response. -/
theorem sent_to_foreign_connection :
  (run (step [sampleMap]) (fun _ _ => true) sampleInit
      [.accept 5, .accept 6, .receive 5 (sampleRequest 1 (.replicate _ 0)), .rxRequest (some 0),
       .fetch 0, .finish 0 (.render (sampleOutcome true 532)), .clear 5, .close, .accept 5,
       .respond 0]).map
    (fun s => (s.sent.map fun e => (e.request, e.fd, e.conn), s.received.map fun rec => rec.conn)) =
    some ([(0, 5, some 2)], [0])
  := by
  decide +kernel

end Renderd
