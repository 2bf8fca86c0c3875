import ModTile.Renderd.Ownership

/-!
# Items and the requests they stand for

The history of the daemon records every request that has been received.  An item whose
descriptor has not been cleared stands for one of them: its content is what `rx_request`
made of the request, with the descriptor on which the request came.  The main thread deals
with one request at a time, and the connection it came from stays open meanwhile.
-/

open Transition RenderThread

/-- The content of the item for a request, when it is made. -/
def Received.content (rec : Received) : Content where
  req := Renderd.upgrade rec.req
  mx := metatileOrigin rec.req.x
  my := metatileOrigin rec.req.y
  fd := rec.fd

namespace Renderd

/-- The upgrade changes the strings of a request only. -/
theorem upgrade_eq {req : Protocol} :
  upgrade req = { req with
    xmlname := (upgrade req).xmlname
    mimetype := (upgrade req).mimetype
    options := (upgrade req).options }
  := by
  simp only [upgrade]
  split
  · split <;> rfl
  · split <;> rfl

theorem upgrade_cmd {req : Protocol} :
  (upgrade req).cmd = req.cmd
  := by rw [upgrade_eq]

/-- The content of a new item. -/
theorem content_newItem (old : Item) (rec : Received) (hcmd : Protocol.isRender rec.req.cmd) :
  (newItem old (upgrade rec.req) rec.fd).content = rec.content
  := by
  have hx : (upgrade rec.req).x = rec.req.x := by rw [upgrade_eq]
  have hy : (upgrade rec.req).y = rec.req.y := by rw [upgrade_eq]
  have hdirty : (upgrade rec.req).cmd ≠ .cmdDirty := by
    rw [upgrade_cmd]
    intro h
    simp [h, Protocol.isRender] at hcmd
  simp [newItem, Item.content, Received.content, hx, hy, hdirty]

/-- A new item with a descriptor is for a rendering request. -/
theorem isRender_of_newItem {old : Item} {req : Protocol} {fd : ℤ}
    (hcmd : acceptsCmd (upgrade req).cmd)
    (hfd : (newItem old (upgrade req) fd).fd ≠ fdInvalid) :
  Protocol.isRender req.cmd
  := by
  rw [upgrade_cmd] at hcmd
  simp only [acceptsCmd, Bool.or_eq_true, decide_eq_true_eq] at hcmd
  apply hcmd.resolve_right
  intro hdirty
  simp [newItem, upgrade_cmd, hdirty] at hfd

/-- The items, the main thread and the open descriptors agree with the history. -/
structure Recorded (s : Renderd) : Prop where
  conn : ∀ {fd conn}, s.conns fd = some conn → 0 ≤ fd ∧ conn < s.accepts
  received : ∀ {r : ℕ} {rec : Received}, s.received[r]? = some rec →
    0 ≤ rec.fd ∧ rec.conn < s.accepts
  item : ∀ {p}, p ∈ s.allocated → (s.heap p).fd ≠ fdInvalid →
    ∃ rec, s.received[s.requestOf p]? = some rec ∧ (s.heap p).content = rec.content ∧
      Protocol.isRender rec.req.cmd
  mainReceived : ∀ {r req fd}, s.main = .received r req fd →
    ∃ conn, s.received[r]? = some { conn := conn, fd := fd, req := req } ∧ s.conns fd = some conn
  mainNotDone : ∀ {r req fd}, s.main = .notDone r req fd →
    ∃ rec, s.received[r]? = some rec ∧ rec.fd = fd ∧ s.conns fd = some rec.conn
  sent : ∀ {e}, e ∈ s.sent → ∃ rec, s.received[e.request]? = some rec

variable {maps : List XmlMapConfig} {s s' : Renderd} {v v' : View} {chains chains' : ℕ → List Ptr}
  {p : Ptr} {m : Heap} {a : ThreadStep}

theorem recorded_init :
  Recorded (init m)
  := by
  constructor <;> simp [init]

/-- The messages after a round of `send_response`. -/
theorem sent_sendItem (s : Renderd) (worker : ℕ) (rsp : ProtoCmd) (p : Ptr) :
  (s.sendItem worker rsp p).sent =
    if (s.heap p).fd ≠ fdInvalid ∧ Protocol.isRender (s.heap p).req.cmd then
      s.sent ++ [{ request := s.requestOf p, message := { (s.heap p).req with cmd := rsp }
                   fd := (s.heap p).fd, conn := s.conns (s.heap p).fd }]
    else s.sent
  := by
  simp only [sendItem]
  split <;> rfl

/-- A round of `send_response` frees the item, sends at most one message and goes on to the next
item. -/
theorem sendItem_eq {worker : ℕ} {rsp : ProtoCmd} :
  s.sendItem worker rsp p = { s with
    allocated := s.allocated.erase p
    workers := Function.update s.workers worker (.responding rsp (s.heap p).duplicates)
    sent := (s.sendItem worker rsp p).sent }
  := by
  simp only [sendItem]
  split <;> rfl

/-- A request that has been received is still recorded when more are received. -/
theorem getElem?_append_of_some {l l' : List Received} {r : ℕ} {rec : Received}
    (h : l[r]? = some rec) :
  (l ++ l')[r]? = some rec
  := by
  obtain ⟨hr, -⟩ := List.getElem?_eq_some_iff.mp h
  rw [List.getElem?_append_left hr, h]

namespace Recorded

open RequestQueue

/-- A step of a worker that changes neither the content of items nor the history. -/
theorem of_eq (hr : Recorded s) (hconns : s'.conns = s.conns) (haccepts : s'.accepts = s.accepts)
    (hreceived : s'.received = s.received) (hrequestOf : s'.requestOf = s.requestOf)
    (hallocated : ∀ {p}, p ∈ s'.allocated → p ∈ s.allocated)
    (hheap : ∀ {p}, (s'.heap p).content = (s.heap p).content)
    (hmain : s'.main = s.main) (hsent : s'.sent = s.sent) :
  Recorded s'
  := by
  constructor
  case conn =>
    rw [hconns, haccepts]
    exact hr.conn
  case received =>
    rw [hreceived, haccepts]
    exact hr.received
  case item =>
    intro p hp hfd
    have hfd' : (s.heap p).fd ≠ fdInvalid := by
      rw [← Item.fd_congr hheap]
      apply hfd
    rw [hreceived, hrequestOf, hheap]
    apply hr.item (hallocated hp) hfd'
  case mainReceived =>
    rw [hmain, hreceived, hconns]
    exact hr.mainReceived
  case mainNotDone =>
    rw [hmain, hreceived, hconns]
    exact hr.mainNotDone
  case sent =>
    rw [hsent, hreceived]
    exact hr.sent

/-- The step of the main thread that adds an item to the queue. -/
theorem add {request : ℕ} {req : Protocol} {fd : ℤ} {n : ℕ} {item : Item} {r : Added}
    (hr : Recorded s) (hmain : s.main = .received request req fd)
    (hcmd : acceptsCmd (upgrade req).cmd) (hfree : .item n ∉ s.allocated)
    (hitem : item = newItem (s.heap (.item n)) (upgrade req) fd)
    (ho : AddOutcome (s.queue.queue.write n item) v n r v') :
  Recorded (s.afterAdd request (upgrade req) fd n r)
  := by
  obtain ⟨conn, hrec, hopen⟩ := hr.mainReceived hmain
  constructor
  case conn => exact hr.conn
  case received => exact hr.received
  case item =>
    intro p hp hfd
    dsimp only [heap, afterAdd] at hp hfd ⊢
    by_cases hpn : p = .item n
    · subst hpn
      rw [Function.update_self]
      have hcontent : (r.queue.heap (.item n)).content = item.content := by
        rcases ho.reply with ⟨-, -, h⟩ | ⟨-, -, h⟩ | ⟨-, hfreed⟩
        · rw [h, heap_write_self]
        · apply absurd (congrArg Content.fd h) hfd
        · simp only [hfreed, if_true] at hp
          apply absurd hp hfree
      have hfd' : item.fd ≠ fdInvalid := by
        rw [← Item.fd_congr hcontent]
        apply hfd
      rw [hitem] at hfd'
      have hrender := isRender_of_newItem hcmd hfd'
      refine ⟨_, hrec, ?_, hrender⟩
      rw [hcontent, hitem]
      apply content_newItem _ { conn := conn, fd := fd, req := req } hrender
    · have hp' : p ∈ s.allocated := by
        split at hp
        · apply hp
        · apply (List.mem_cons.mp hp).resolve_left hpn
      have hcontent : (r.queue.heap p).content = (s.heap p).content := by
        rw [ho.content_of_ne hpn, heap_write_of_ne hpn, heap]
      have hfd' : (s.heap p).fd ≠ fdInvalid := by
        rw [← Item.fd_congr hcontent]
        apply hfd
      rw [Function.update_of_ne hpn, hcontent]
      apply hr.item hp' hfd'
  case mainReceived =>
    intro r' req' fd' h
    dsimp only [afterAdd] at h
    split at h <;> simp at h
  case mainNotDone =>
    intro r' req' fd' h
    dsimp only [afterAdd] at h
    split at h
    · obtain ⟨rfl, -, rfl⟩ := MainThread.notDone.inj h
      exact ⟨_, hrec, rfl, hopen⟩
    · simp at h
  case sent => exact hr.sent

/-- Every step keeps the agreement with the history. -/
theorem effect (hr : Recorded s) (hc : Coherent s v chains)
    (he : Effect maps s v chains a s' v' chains') :
  Recorded s'
  := by
  cases he with
  | @accept fd hmain hfd hclosed =>
      constructor
      case conn =>
        intro fd' conn h
        dsimp only at h ⊢
        by_cases hne : fd' = fd
        · subst hne
          rw [Function.update_self] at h
          obtain rfl := Option.some.inj h
          exact ⟨hfd, Nat.lt_succ_self _⟩
        · rw [Function.update_of_ne hne] at h
          obtain ⟨hfd', hlt⟩ := hr.conn h
          exact ⟨hfd', Nat.lt_succ_of_lt hlt⟩
      case received =>
        intro r rec h
        obtain ⟨hfd', hlt⟩ := hr.received h
        exact ⟨hfd', Nat.lt_succ_of_lt hlt⟩
      case item => exact hr.item
      case mainReceived => simp
      case mainNotDone => simp
      case sent => exact hr.sent
  | @receive fd req conn hmain hopen =>
      constructor
      case conn => exact hr.conn
      case received =>
        intro r rec h
        dsimp only at h
        rcases List.mem_append.mp (List.mem_of_getElem? h) with h | h
        · obtain ⟨i, hi⟩ := List.mem_iff_getElem?.mp h
          apply hr.received hi
        · obtain rfl := List.mem_singleton.mp h
          apply hr.conn hopen
      case item =>
        intro p hp hfd
        obtain ⟨rec, hrec, hcontent⟩ := hr.item hp hfd
        exact ⟨rec, getElem?_append_of_some hrec, hcontent⟩
      case mainReceived =>
        intro r req' fd' h
        obtain ⟨rfl, rfl, rfl⟩ := MainThread.received.inj h
        refine ⟨conn, ?_, hopen⟩
        simp
      case mainNotDone => simp
      case sent =>
        intro e he
        obtain ⟨rec, hrec⟩ := hr.sent he
        exact ⟨rec, getElem?_append_of_some hrec⟩
  | @refuse request req fd address hmain =>
      obtain ⟨conn, hrec, hopen⟩ := hr.mainReceived hmain
      constructor
      case conn => exact hr.conn
      case received => exact hr.received
      case item => exact hr.item
      case mainReceived => simp
      case mainNotDone =>
        intro r req' fd' h
        obtain ⟨rfl, -, rfl⟩ := MainThread.notDone.inj h
        exact ⟨_, hrec, rfl, hopen⟩
      case sent => exact hr.sent
  | add hmain hcmd hfree hitem hadded ho => apply hr.add hmain hcmd hfree hitem ho
  | @sendNotDone request req fd hmain =>
      obtain ⟨rec, hrec, -⟩ := hr.mainNotDone hmain
      constructor
      case conn => exact hr.conn
      case received => exact hr.received
      case item => exact hr.item
      case mainReceived => simp
      case mainNotDone => simp
      case sent =>
        intro e he
        rcases List.mem_append.mp he with he | he
        · apply hr.sent he
        · obtain rfl := List.mem_singleton.mp he
          exact ⟨rec, hrec⟩
  | @clear fd conn q' hmain hopen hheap =>
      constructor
      case conn => exact hr.conn
      case received => exact hr.received
      case item =>
        intro p hp hfd
        dsimp only [heap] at hfd ⊢
        rw [hheap] at hfd ⊢
        split at hfd
        · simp at hfd
        · rename_i h
          rw [if_neg h]
          apply hr.item hp hfd
      case mainReceived => simp
      case mainNotDone => simp
      case sent => exact hr.sent
  | @close fd hmain =>
      constructor
      case conn =>
        intro fd' conn h
        dsimp only at h
        by_cases hne : fd' = fd
        · simp [hne] at h
        · rw [Function.update_of_ne hne] at h
          apply hr.conn h
      case received => exact hr.received
      case item => exact hr.item
      case mainReceived => simp
      case mainNotDone => simp
      case sent => exact hr.sent
  | fetch hworker hlist hp =>
      exact hr.of_eq rfl rfl rfl rfl id content_fetchFrom rfl rfl
  | finish hworker hp hresponses hq =>
      exact hr.of_eq rfl rfl rfl rfl id (content_removeRequest hq) rfl rfl
  | respondEnd hworker => exact hr.of_eq rfl rfl rfl rfl id rfl rfl rfl
  | @respond worker rsp p l hworker hchain =>
      rw [sendItem_eq]
      constructor
      case conn => exact hr.conn
      case received => exact hr.received
      case item =>
        intro x hx hfd
        apply hr.item (List.mem_of_mem_erase hx) hfd
      case mainReceived => exact hr.mainReceived
      case mainNotDone => exact hr.mainNotDone
      case sent =>
        intro e he
        dsimp only at he ⊢
        rw [sent_sendItem] at he
        split at he
        · rename_i hsend
          rcases List.mem_append.mp he with he | he
          · apply hr.sent he
          · obtain rfl := List.mem_singleton.mp he
            have hp : p ∈ chains worker := by
              rw [hchain]
              apply List.mem_cons_self
            obtain ⟨rec, hrec, -⟩ := hr.item (hc.mem_allocated_of_chain hp) hsend.1
            exact ⟨rec, hrec⟩
        · apply hr.sent he

end Recorded

end Renderd
