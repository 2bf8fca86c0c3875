import ModTile.Protocol.Layout
import ModTile.Renderd.SlaveThread
import ModTile.Transition

/-!
# The replies of a slave

The bytes that a `slave_thread` reads from the daemon to which it passes items on.  That daemon
answers the requests on a connection once and in order, with one `struct protocol` each, but it
may be late.  The thread has no means to tell the answers apart: it takes the next bytes of the
connection for the answer to the request that it has sent last.

When `recv` has failed ten times, the thread gives up and reports the item as not done.  It keeps
the connection, with the answer still to come, and sends the next request on it.
-/

open Transition RenderThread

namespace SlaveThread

/-- A connection to the slave: whether it is open, the items whose requests have been sent on it,
how many bytes have been read from it, and whether the thread has given up on an answer while it
was open. -/
structure Connection where
  isOpen : Bool
  requests : List ℕ
  pos : ℕ
  givenUp : Bool
  deriving DecidableEq

/-- The bytes of a `struct protocol` that has been read as the answer for an item. -/
structure Reply where
  item : ℕ
  resp : List UInt8
  deriving DecidableEq

/-- A slave thread between two items: its connection, how many items it has fetched, and the
replies whose command it has passed to `send_response`. -/
structure Thread where
  conn : Connection
  fetched : ℕ
  replies : List Reply
  deriving DecidableEq

/-- The end of the loop in which the reply is received: the bytes that have been received for it,
how many have been read from the connection, and whether it is open. -/
structure RecvEnd where
  data : List UInt8
  pos : ℕ
  isOpen : Bool
  deriving DecidableEq

/-- The answers to the items: an answer is a `struct protocol`. -/
abbrev Answers : Type := ℕ → List.Vector UInt8 protocolSize

/-- A connection that has just been opened. -/
def Connection.opened : Connection where
  isOpen := true
  requests := []
  pos := 0
  givenUp := false

/-- A connection that has been closed. -/
def Connection.closed : Connection where
  isOpen := false
  requests := []
  pos := 0
  givenUp := false

/-- The bytes that the slave sends on the connection. -/
def Connection.stream (answer : Answers) (c : Connection) : List UInt8 :=
  c.requests.flatMap fun i => (answer i).toList

/-- The thread before it has fetched an item. -/
def Thread.init : Thread where
  conn := .closed
  fetched := 0
  replies := []

/-- The loop in which the reply is received, from the place `pos` of the stream on.  There is no
result when the thread waits, in particular when it is to receive bytes that the slave does not
send. -/
def recvBytes (stream : List UInt8) :
    List UInt8 → ℕ → ℕ → List RecvResult → Option RecvEnd
  | data, pos, retry, script =>
      if data.length < protocolSize ∧ retry > 0 then
        match script with
        | [] => none
        | .eintr :: script => recvBytes stream data pos retry script
        | .epipe :: _ => some ⟨[], pos, false⟩
        | .failed :: script => recvBytes stream data pos (retry - 1) script
        | .closed :: _ => some ⟨[], pos, false⟩
        | .received n _ :: script =>
            let count := min n (protocolSize - data.length)
            if stream.length < pos + count then none
            else
              recvBytes stream (data ++ (stream.drop pos).take count) (pos + count) retry script
      else some ⟨data, pos, true⟩

/-- The connection on which the request for an item is sent, if it is sent.  A thread without a
connection has opened one before it has fetched the item. -/
def sendConnection (s : Thread) (o : Outcome) : Connection :=
  if o.send 0 = .sent then
    if s.conn.isOpen then s.conn else .opened
  else .opened

/-- The thread after the loop in which the reply for the item is received. -/
def afterRecv (s : Thread) (c : Connection) (r : RecvEnd) : Thread where
  conn := {
    isOpen := r.isOpen
    requests := c.requests
    pos := r.pos
    givenUp := c.givenUp || r.isOpen && r.data.length < protocolSize }
  fetched := s.fetched + 1
  replies := if r.data.length < protocolSize then s.replies else s.replies ++ [⟨s.fetched, r.data⟩]

/-- The handling of the next item.  There is no result when the thread returns, or waits for
ever. -/
def slaveStep (answer : Answers) (s : Thread) (o : Outcome) : Option Thread :=
  match sendLoop o 2 0 with
  | none => none
  | some d =>
      if d.pfd = false then some { s with conn := .closed, fetched := s.fetched + 1 }
      else if d.sent = false then some { s with conn := .opened, fetched := s.fetched + 1 }
      else
        let c := sendConnection s o
        let c := { c with requests := c.requests ++ [s.fetched] }
        (recvBytes (c.stream answer) [] c.pos 10 o.recv).map (afterRecv s c)

variable {answer : Answers} {stream data : List UInt8} {pos retry : ℕ} {script : List RecvResult}
  {r : RecvEnd} {s s' : Thread} {o : Outcome}

/-! ### What is received -/

/-- A property of what has been received and of the place in the stream that every delivery keeps
holds at the end of the loop, unless the connection has been closed. -/
theorem recvBytes_invariant {I : List UInt8 → ℕ → Prop} (hinit : I data pos)
    (hkeep : ∀ data pos count, I data pos → data.length + count ≤ protocolSize →
      pos + count ≤ stream.length → I (data ++ (stream.drop pos).take count) (pos + count))
    (h : recvBytes stream data pos retry script = some r) :
  r.isOpen = false ∧ r.data = [] ∨ r.isOpen = true ∧ I r.data r.pos
  := by
  induction script generalizing data pos retry with
  | nil =>
      unfold recvBytes at h
      split_ifs at h
      obtain rfl := Option.some.inj h
      exact Or.inr ⟨rfl, hinit⟩
  | cons a script ih =>
      unfold recvBytes at h
      split_ifs at h with hmore
      · cases a with
        | eintr => apply ih hinit h
        | failed => apply ih hinit h
        | epipe =>
            obtain rfl := Option.some.inj h
            exact Or.inl ⟨rfl, rfl⟩
        | closed =>
            obtain rfl := Option.some.inj h
            exact Or.inl ⟨rfl, rfl⟩
        | received n hn =>
            dsimp only at h
            split_ifs at h with havailable
            apply ih _ h
            apply hkeep _ _ _ hinit
            · omega
            · omega
      · obtain rfl := Option.some.inj h
        exact Or.inr ⟨rfl, hinit⟩

theorem length_append_take {count : ℕ} (h : pos + count ≤ stream.length) :
  (data ++ (stream.drop pos).take count).length = data.length + count
  := by
  rw [List.length_append, List.length_take_of_le]
  rw [List.length_drop]
  omega

/-- What has been received when the loop ends with the connection open is what the stream has
from the place on at which the loop has started. -/
theorem recvBytes_spec (h : recvBytes stream [] pos retry script = some r) :
  r.isOpen = false ∧ r.data = [] ∨
    r.isOpen = true ∧ r.pos = pos + r.data.length ∧ r.data.length ≤ protocolSize ∧
      r.data = (stream.drop pos).take r.data.length
  := by
  apply recvBytes_invariant (I := fun data p => p = pos + data.length ∧
    data.length ≤ protocolSize ∧ data = (stream.drop pos).take data.length) _ _ h
  · simp
  · rintro data p count ⟨rfl, -, hdata⟩ hsize hstream
    rw [length_append_take hstream, List.take_add, ← hdata, List.drop_drop]
    exact ⟨Nat.add_assoc _ _ _, hsize, rfl⟩

/-- The loop receives as many bytes as the thread counts. -/
theorem recvLoop_of_recvBytes (h : recvBytes stream data pos retry script = some r) :
  recvLoop data.length retry script = some r.data.length
  := by
  induction script generalizing data pos retry with
  | nil =>
      unfold recvBytes at h
      unfold recvLoop
      split_ifs at h ⊢
      obtain rfl := Option.some.inj h
      rfl
  | cons a script ih =>
      unfold recvBytes at h
      unfold recvLoop
      split_ifs at h ⊢ with hmore
      · cases a with
        | eintr => apply ih h
        | failed => apply ih h
        | epipe =>
            obtain rfl := Option.some.inj h
            rfl
        | closed =>
            obtain rfl := Option.some.inj h
            rfl
        | received n hn =>
            dsimp only at h ⊢
            split_ifs at h with havailable
            have hlength : (data ++ (stream.drop pos).take
                (min n (protocolSize - data.length))).length =
                  data.length + min n (protocolSize - data.length) :=
              length_append_take (by omega)
            rw [← hlength]
            apply ih h
      · obtain rfl := Option.some.inj h
        rfl

/-! ### The handling of one item -/

/-- What the handling of an item does to the thread, with the result of the loop in which the
request is sent. -/
inductive Effect (answer : Answers) (s : Thread) (o : Outcome) : Thread → Prop where
  | dropped (hsend : sendLoop o 2 0 = some ⟨false, false, [⟨.cmdNotDone, -1⟩]⟩) :
      Effect answer s o { s with conn := .closed, fetched := s.fetched + 1 }
  | unsent (hsend : sendLoop o 2 0 = some ⟨true, false, []⟩) :
      Effect answer s o { s with conn := .opened, fetched := s.fetched + 1 }
  | sent {c : Connection} {r : RecvEnd} (hsend : sendLoop o 2 0 = some ⟨true, true, []⟩)
      (hc : c = { sendConnection s o with
        requests := (sendConnection s o).requests ++ [s.fetched] })
      (hr : recvBytes (c.stream answer) [] c.pos 10 o.recv = some r) :
      Effect answer s o (afterRecv s c r)

theorem slaveStep_effect (h : slaveStep answer s o = some s') :
  Effect answer s o s'
  := by
  have hcases : sendLoop o 2 0 = none ∨ sendLoop o 2 0 = some ⟨true, false, []⟩ ∨
      sendLoop o 2 0 = some ⟨true, true, []⟩ ∨
      sendLoop o 2 0 = some ⟨false, false, [⟨.cmdNotDone, -1⟩]⟩ := by
    by_cases hunsent : Unsent o 2 0
    · rcases sendLoop_of_unsent hunsent with h | h
      · exact Or.inl h
      · exact Or.inr (Or.inl h)
    · exact Or.inr (Or.inr (sendLoop_of_not_unsent hunsent))
  rw [slaveStep] at h
  rcases hcases with hsend | hsend | hsend | hsend
  · rw [hsend] at h
    contradiction
  · rw [hsend] at h
    obtain rfl := Option.some.inj h
    exact .unsent hsend
  · rw [hsend] at h
    obtain ⟨r, hr, rfl⟩ := Option.map_eq_some_iff.mp h
    exact .sent hsend rfl hr
  · rw [hsend] at h
    obtain rfl := Option.some.inj h
    exact .dropped hsend

/-- The handling of an item makes the calls of `send_response` that the thread makes for it.  When
a reply has been read, there is one call, with the command of the reply. -/
theorem slaveItem_of_slaveStep (h : slaveStep answer s o = some s') :
  (∃ data, s'.replies = s.replies ++ [⟨s.fetched, data⟩] ∧
      slaveItem { o with reply := (Protocol.ofBytes data).cmd } =
        ([⟨(Protocol.ofBytes data).cmd, -1⟩], .again)) ∨
    s'.replies = s.replies ∧ (slaveItem o).2 = .again ∧
      ∀ r ∈ (slaveItem o).1, r = ⟨.cmdNotDone, -1⟩
  := by
  cases slaveStep_effect h with
  | dropped hsend =>
      right
      simp [slaveItem, hsend]
  | unsent hsend =>
      right
      simp [slaveItem, hsend]
  | @sent c r hsend hc hr =>
      have hloop : recvLoop 0 10 o.recv = some r.data.length := recvLoop_of_recvBytes hr
      by_cases hsize : r.data.length < protocolSize
      · right
        simp [slaveItem, hsend, hloop, hsize, afterRecv]
      · left
        use r.data
        have hsend' : sendLoop { o with reply := (Protocol.ofBytes r.data).cmd } 2 0 =
            some ⟨true, true, []⟩ := by
          rw [← hsend]
          simp only [sendLoop]
        simp [slaveItem, hsend', hloop, hsize, afterRecv]

/-! ### Runs -/

/-- No request is sent on a connection on which the thread has given up on an answer. -/
def SendsAfterAnswers (s : Thread) (o : Outcome) : Prop :=
  ¬ (s.conn.isOpen = true ∧ s.conn.givenUp = true ∧ o.send 0 = .sent)

instance (s : Thread) (o : Outcome) : Decidable (SendsAfterAnswers s o) :=
  inferInstanceAs (Decidable (¬ (_ ∧ _ ∧ _)))

/-- All answers on an open connection have been read, unless the thread has given up on one of
them, and every reply is the answer for its item. -/
structure Attributed (answer : Answers) (s : Thread) : Prop where
  conn : s.conn.isOpen = true → s.conn.givenUp = false →
    s.conn.pos = protocolSize * s.conn.requests.length
  replies : ∀ r ∈ s.replies, r.resp = (answer r.item).toList

theorem length_stream (c : Connection) :
  (c.stream answer).length = protocolSize * c.requests.length
  := by
  rw [Connection.stream, List.length_flatMap, Nat.mul_comm]
  simp

/-- The connection on which a request is sent has no answer left to read. -/
theorem sendConnection_spec (h : Attributed answer s) (hok : SendsAfterAnswers s o) :
  (sendConnection s o).givenUp = false ∧
    (sendConnection s o).pos = protocolSize * (sendConnection s o).requests.length
  := by
  rw [sendConnection]
  split_ifs with hsent hopen
  · have hgiven : s.conn.givenUp = false := by
      rw [SendsAfterAnswers] at hok
      simpa [hopen, hsent] using hok
    exact ⟨hgiven, h.conn hopen hgiven⟩
  · exact ⟨rfl, rfl⟩
  · exact ⟨rfl, rfl⟩

/-- The handling of an item keeps the replies attributed. -/
theorem Attributed.step (h : Attributed answer s) (hok : SendsAfterAnswers s o)
    (hstep : slaveStep answer s o = some s') :
  Attributed answer s'
  := by
  cases slaveStep_effect hstep with
  | dropped hsend =>
      constructor
      case conn =>
        intro hopen
        contradiction
      case replies => exact h.replies
  | unsent hsend =>
      constructor
      case conn =>
        intro _ _
        rfl
      case replies => exact h.replies
  | @sent c r hsend hc hr =>
      obtain ⟨hgiven, hpos⟩ := sendConnection_spec h hok
      have hstream : (c.stream answer).drop c.pos = (answer s.fetched).toList := by
        have hfront : c.stream answer =
            (sendConnection s o).stream answer ++ (answer s.fetched).toList := by
          simp [hc, Connection.stream]
        have hstart : c.pos = ((sendConnection s o).stream answer).length := by
          rw [length_stream, ← hpos, hc]
        rw [hfront, hstart, List.drop_left]
      have hrequests : c.requests.length = (sendConnection s o).requests.length + 1 := by
        rw [hc, List.length_append, List.length_singleton]
      have hcpos : c.pos = protocolSize * (sendConnection s o).requests.length := by
        rw [← hpos, hc]
      have hspec := recvBytes_spec hr
      rw [hstream] at hspec
      constructor
      case conn =>
        intro hopen hnotGiven
        simp only [afterRecv, Bool.or_eq_false_iff, Bool.and_eq_false_iff,
          decide_eq_false_iff_not] at hopen hnotGiven ⊢
        obtain ⟨hclosed, -⟩ | ⟨-, hrpos, hle, -⟩ := hspec
        · rw [hclosed] at hopen
          contradiction
        · have hfull : ¬ r.data.length < protocolSize := by
            apply hnotGiven.2.resolve_left
            rw [hopen]
            decide
          rw [hrpos, hrequests, hcpos, Nat.mul_succ]
          omega
      case replies =>
        intro reply hreply
        simp only [afterRecv] at hreply
        split_ifs at hreply with hsize
        · apply h.replies reply hreply
        · rcases List.mem_append.mp hreply with hreply | hreply
          · apply h.replies reply hreply
          · obtain rfl := List.mem_singleton.mp hreply
            obtain ⟨-, hempty⟩ | ⟨-, -, -, hdata⟩ := hspec
            · rw [hempty] at hsize
              exact absurd (by decide) hsize
            · dsimp only
              rw [hdata, List.take_of_length_le]
              rw [(answer s.fetched).toList_length]
              omega

/-- In every run in which no request is sent on a connection on which the thread has given up on
an answer, every reply whose command is passed to `send_response` is byte for byte the answer to
the request for its item. -/
theorem answers_attributed (h : Reach (slaveStep answer) SendsAfterAnswers .init s) :
  ∀ r ∈ s.replies, r.resp = (answer r.item).toList
  := by
  have hinit : Attributed answer .init := by
    constructor <;> simp [Thread.init, Connection.closed]
  have hinv : Attributed answer s := by
    apply h.invariant hinit
    intro t o u ht hok hstep
    apply ht.step hok hstep
  apply hinv.replies

/-- The answer for the item `i` has `i` in all its bytes. -/
def sampleAnswers : Answers := fun i => .replicate _ (UInt8.ofNat i)

/-- An item whose request is sent at once, with the given results of `recv`. -/
def sampleItem (recv : List RecvResult) : Outcome where
  send := fun _ => .sent
  reconnect := fun _ => true
  recv := recv
  reply := .cmdDone

/-- The answers to two items, the first in two pieces, are read as such. -/
theorem answers_attributed_sample :
  ∃ s, run (slaveStep sampleAnswers) (fun s o => decide (SendsAfterAnswers s o)) .init
      [sampleItem [.received 4 (by decide), .eintr, .failed, .received 200 (by decide)],
       sampleItem [.received 144 (by decide)]] = some s ∧
    s.replies.map Reply.item = [0, 1] ∧ ∀ r ∈ s.replies, r.resp = (sampleAnswers r.item).toList
  := by
  have hrun : (run (slaveStep sampleAnswers) (fun s o => decide (SendsAfterAnswers s o)) .init
      [sampleItem [.received 4 (by decide), .eintr, .failed, .received 200 (by decide)],
       sampleItem [.received 144 (by decide)]]).map (fun s => s.replies.map Reply.item) =
        some [0, 1] := by
    decide +kernel
  obtain ⟨s, hs, hitems⟩ := Option.map_eq_some_iff.mp hrun
  use s, hs, hitems
  apply answers_attributed (reach_of_run hs fun _ _ h => of_decide_eq_true h)

/-- The thread gives up on the answer for the first item, and takes it for the answer for the
second one.  When it gives up after four bytes, it takes the rest of the answer and the first four
bytes of the next one. -/
theorem answer_misattributed :
  (run (slaveStep sampleAnswers) (fun _ _ => true) .init
      [sampleItem (List.replicate 10 .failed), sampleItem [.received 144 (by decide)]]).map
    Thread.replies = some [⟨1, (sampleAnswers 0).toList⟩] ∧
  (run (slaveStep sampleAnswers) (fun _ _ => true) .init
      [sampleItem (.received 4 (by decide) :: List.replicate 10 .failed),
       sampleItem [.received 144 (by decide)]]).map
    Thread.replies = some [⟨1, List.replicate 140 0 ++ List.replicate 4 1⟩]
  := by
  decide +kernel

end SlaveThread
