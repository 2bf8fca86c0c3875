import ModTile.GenTile

/-!
# Threads that serve the queue

A thread of the daemon takes an item from the queue, deals with it, and calls
`send_response` for it.  A `render_thread` renders the item itself, a `slave_thread` passes
it on to another daemon and waits for the reply.  Both are modelled from the fetch of an
item to the next fetch, for every sequence of results of the system calls on the way.

A thread answers an item when it calls `send_response` exactly once for it before it fetches
another item or returns.
-/

open RenderThread

namespace SlaveThread

/-- The request that is passed on, where `old` is the previous content of its memory. -/
def reqSlave (req old : Protocol) : Protocol where
  ver := 3
  cmd := .cmdRender
  x := req.x
  y := req.y
  z := req.z
  xmlname := Bytes.storeString req.xmlnameString old.xmlname
  mimetype := Bytes.storeString req.mimetypeString old.mimetype
  options := Bytes.storeString req.optionsString old.options

/-- A result of `send_cmd`: the whole request has been sent, or `errno` is `EPIPE`, or it is
another error. -/
inductive SendResult where
  | sent
  | epipe
  | failed
  deriving DecidableEq

/-- A result of `recv`. -/
inductive RecvResult where
  | received (n : ℕ) (h : 0 < n)
  | closed
  | eintr
  | epipe
  | failed

/-- The results of the system calls for one item: of the attempts to send, of the attempts to
connect again, and of the calls of `recv`, with the command in the reply.  When the results
of `recv` are used up, the thread waits. -/
structure Outcome where
  send : ℕ → SendResult
  reconnect : ℕ → Bool
  recv : List RecvResult
  reply : ProtoCmd

/-- How the handling of an item ends: with the next round of the loop, with the return of the
thread, or it waits for ever. -/
inductive Ending where
  | again
  | returned
  | waiting
  deriving DecidableEq

/-- The variables after the loop in which the request is sent: whether the connection is open,
whether the last attempt has sent the request, and the calls of `send_response` so far. -/
structure Dispatch where
  pfd : Bool
  sent : Bool
  calls : List Response

/-- The loop in which the request is sent, in the attempt `k` and with the given value of
`retry`.  The thread returns from it when the result is `none`. -/
def sendLoop (o : Outcome) : ℕ → ℕ → Option Dispatch
  | retry, k =>
      match o.send k with
      | .sent => some ⟨true, true, []⟩
      | .failed => none
      | .epipe =>
          if o.reconnect k then
            match retry with
            | 0 => some ⟨true, false, []⟩
            | retry + 1 => sendLoop o retry (k + 1)
          else some ⟨false, false, [⟨.cmdNotDone, -1⟩]⟩

/-- The number of bytes of `struct protocol`. -/
def protocolSize : ℕ := 144

/-- The loop in which the reply is received: the number of bytes that have been received, or
`none` when the thread waits. -/
def recvLoop : ℕ → ℕ → List RecvResult → Option ℕ
  | retSize, retry, script =>
      if retSize < protocolSize ∧ retry > 0 then
        match script with
        | [] => none
        | .eintr :: script => recvLoop retSize retry script
        | .epipe :: _ => some 0
        | .failed :: script => recvLoop retSize (retry - 1) script
        | .closed :: _ => some 0
        | .received n _ :: script =>
            recvLoop (retSize + min n (protocolSize - retSize)) retry script
      else some retSize

/-- The calls of `send_response` for an item, and how its handling ends. -/
def slaveItem (o : Outcome) : List Response × Ending :=
  match sendLoop o 2 0 with
  | none => ([], .returned)
  | some d =>
      if d.pfd = false ∨ d.sent = false then (d.calls, .again)
      else
        match recvLoop 0 10 o.recv with
        | none => (d.calls, .waiting)
        | some retSize =>
            if retSize < protocolSize then (d.calls ++ [⟨.cmdNotDone, -1⟩], .again)
            else (d.calls ++ [⟨o.reply, -1⟩], .again)

/-- From the attempt `k` on and with `retry` more attempts after it, the request is not sent
although the connection can be opened again each time: an attempt fails with another error
than `EPIPE`, or all of them fail. -/
def Unsent (o : Outcome) (retry k : ℕ) : Prop :=
  ∃ i ≤ retry, (∀ j < i, o.send (k + j) = .epipe ∧ o.reconnect (k + j)) ∧
    (o.send (k + i) = .failed ∨ i = retry ∧ o.send (k + i) = .epipe ∧ o.reconnect (k + i))

variable {o : Outcome} {retry k : ℕ}

/-- When the last attempt fails. -/
theorem unsent_zero :
  Unsent o 0 k ↔ o.send k = .failed ∨ o.send k = .epipe ∧ o.reconnect k
  := by
  simp [Unsent]

/-- When an attempt fails that is not the last one. -/
theorem unsent_succ :
  Unsent o (retry + 1) k ↔
    o.send k = .failed ∨ (o.send k = .epipe ∧ o.reconnect k) ∧ Unsent o retry (k + 1)
  := by
  constructor
  · rintro ⟨i, hi, hbefore, hend⟩
    cases i with
    | zero =>
        left
        apply hend.resolve_right
        simp
    | succ i =>
        right
        use hbefore 0 (Nat.succ_pos i), i, Nat.le_of_succ_le_succ hi
        constructor
        · intro j hj
          rw [Nat.add_right_comm]
          apply hbefore (j + 1) (Nat.succ_lt_succ hj)
        · rw [Nat.add_right_comm]
          simpa [← Nat.add_assoc] using hend
  · rintro (h | ⟨h, i, hi, hbefore, hend⟩)
    · exact ⟨0, Nat.zero_le _, by simp, Or.inl h⟩
    · use i + 1, Nat.succ_le_succ hi
      constructor
      · intro j hj
        cases j with
        | zero => apply h
        | succ j =>
            have hj := hbefore j (Nat.lt_of_succ_lt_succ hj)
            rw [Nat.add_right_comm] at hj
            apply hj
      · rw [Nat.add_right_comm] at hend
        simpa [← Nat.add_assoc] using hend

/-- When the request is not sent, the thread returns from the loop or leaves it without an
answer. -/
theorem sendLoop_of_unsent (h : Unsent o retry k) :
  sendLoop o retry k = none ∨ sendLoop o retry k = some ⟨true, false, []⟩
  := by
  induction retry generalizing k with
  | zero =>
      rcases unsent_zero.mp h with h | ⟨h, hre⟩
      · simp [sendLoop, h]
      · simp [sendLoop, h, hre]
  | succ retry ih =>
      rcases unsent_succ.mp h with h | ⟨⟨h, hre⟩, hrest⟩
      · simp [sendLoop, h]
      · simpa [sendLoop, h, hre] using ih hrest

/-- Otherwise the loop ends with the request sent, or with an answer and no connection. -/
theorem sendLoop_of_not_unsent (h : ¬ Unsent o retry k) :
  sendLoop o retry k = some ⟨true, true, []⟩ ∨
    sendLoop o retry k = some ⟨false, false, [⟨.cmdNotDone, -1⟩]⟩
  := by
  induction retry generalizing k with
  | zero =>
      rw [unsent_zero] at h
      cases hs : o.send k <;> cases hre : o.reconnect k <;> simp_all [sendLoop]
  | succ retry ih =>
      rw [unsent_succ] at h
      cases hs : o.send k <;> cases hre : o.reconnect k <;> simp_all [sendLoop]

/-- An item whose request cannot be sent gets no answer, and the thread goes on. -/
theorem slaveItem_of_unsent (h : Unsent o 2 0) :
  (slaveItem o).1 = [] ∧ (slaveItem o).2 ≠ .waiting
  := by
  rcases sendLoop_of_unsent h with h | h
  · simp [slaveItem, h]
  · simp [slaveItem, h]

/-- Any other item gets one answer, or none while the thread waits for the reply. -/
theorem slaveItem_of_not_unsent (h : ¬ Unsent o 2 0) :
  (∃ r, slaveItem o = ([r], .again)) ∨ slaveItem o = ([], .waiting)
  := by
  rcases sendLoop_of_not_unsent h with h | h
  · simp only [slaveItem, h]
    cases recvLoop 0 10 o.recv with
    | none => simp
    | some retSize =>
        by_cases hsize : retSize < protocolSize
        · simp [hsize]
        · simp [hsize]
  · simp [slaveItem, h]

end SlaveThread

/-- What a thread does with an item. -/
inductive ThreadOutcome where
  | render (maps : List XmlMapConfig) (o : RenderOutcome)
  | slave (o : SlaveThread.Outcome)

/-- The steps of a thread that concern the queue. -/
inductive ThreadEvent where
  | fetch (p : Ptr)
  | sendResponse (p : Ptr) (r : Response)
  | returns
  deriving DecidableEq

namespace ThreadOutcome

open SlaveThread

/-- The calls of `send_response` for an item, and how its handling ends. -/
def handle (item : Item) : ThreadOutcome → List Response × Ending
  | .render maps o => (renderItem maps item o, .again)
  | .slave o => slaveItem o

/-- The events of a thread that handles the items in turn. -/
def events : List (Ptr × Item × ThreadOutcome) → List ThreadEvent
  | [] => []
  | (p, item, o) :: rest =>
      .fetch p :: ((o.handle item).1.map (.sendResponse p) ++
        match (o.handle item).2 with
        | .again => events rest
        | .returned => [.returns]
        | .waiting => [])

/-- Every item that is fetched is answered once before the next one is fetched or the thread
returns.  The last item can still be waiting for its answer. -/
def Answered : List ThreadEvent → Bool
  | [] => true
  | [.fetch _] => true
  | .fetch p :: .sendResponse p' _ :: rest => p = p' && Answered rest
  | [.returns] => true
  | _ => false

/-- A slave thread can send the request, or cannot open the connection again. -/
def Dispatched : ThreadOutcome → Prop
  | .render _ _ => True
  | .slave o => ¬ Unsent o 2 0

variable {item : Item} {o : ThreadOutcome} {p : Ptr} {run : List (Ptr × Item × ThreadOutcome)}

/-- An item that is dispatched gets one answer, or none while the thread waits. -/
theorem handle_eq (item : Item) (h : o.Dispatched) :
  (∃ r, o.handle item = ([r], .again)) ∨ o.handle item = ([], .waiting)
  := by
  cases o with
  | render maps o =>
      left
      exact ⟨_, congrArg (·, Ending.again) renderItem_eq⟩
  | slave o => apply slaveItem_of_not_unsent h

/-- A thread answers all items if each of them is dispatched. -/
theorem answered_events (h : ∀ x ∈ run, x.2.2.Dispatched) :
  Answered (events run)
  := by
  induction run with
  | nil => rfl
  | cons x run ih =>
      obtain ⟨p, item, o⟩ := x
      have hrun := ih fun x hx => h x (List.mem_cons_of_mem _ hx)
      have ho : o.Dispatched := h _ List.mem_cons_self
      rcases handle_eq item ho with ⟨r, hr⟩ | hr
      · simp [events, hr, Answered, hrun]
      · simp [events, hr, Answered]

/-- A thread answers an item in every run in which the items after it are dispatched, exactly
when it dispatches the item. -/
theorem answered_iff_dispatched :
  (∀ run, (∀ x ∈ run, x.2.2.Dispatched) → Answered (events ((p, item, o) :: run))) ↔ o.Dispatched
  := by
  constructor
  · intro h
    cases o with
    | render maps o => trivial
    | slave o =>
        intro hunsent
        obtain ⟨hcalls, hend⟩ := slaveItem_of_unsent hunsent
        have hnext := h [(p, item, .render [] (sampleOutcome true 0))] (by simp [Dispatched])
        cases hend' : (slaveItem o).2 with
        | again => simp [events, handle, hcalls, hend', Answered] at hnext
        | returned => simp [events, handle, hcalls, hend', Answered] at hnext
        | waiting => apply hend hend'
  · intro h run hrun
    apply answered_events
    intro x hx
    rcases List.mem_cons.mp hx with rfl | hx
    · apply h
    · apply hrun x hx

/-- The results of a slave that closes the connection after the first request, and accepts new
connections but no requests. -/
def sampleUnsent : SlaveThread.Outcome where
  send := fun _ => .epipe
  reconnect := fun _ => true
  recv := []
  reply := .cmdDone

/-- A slave thread fetches another item, and returns, without an answer for the item. -/
theorem slave_not_answered :
  (events [(.item 0, .sample .cmdRender 1 5, .slave sampleUnsent),
      (.item 1, .sample .cmdRender 9 5, .slave sampleUnsent)] =
        [.fetch (.item 0), .fetch (.item 1)] ∧
    Answered [.fetch (.item 0), .fetch (.item 1)] = false) ∧
  (events [(.item 0, .sample .cmdRender 1 5,
          .slave { sampleUnsent with send := fun _ => .failed })] =
        [.fetch (.item 0), .returns] ∧
    Answered [.fetch (.item 0), .returns] = false)
  := by
  decide

end ThreadOutcome
