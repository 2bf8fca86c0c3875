import ModTile.RequestQueue.Runs
import ModTile.Renderd.SlaveThread

/-!
# The daemon

The main thread of `renderd` accepts connections, receives requests and puts them into the
queue; worker threads fetch items, render them and send the responses.  Everything that is
done under the lock of the queue is one step, and so is every call of `send_cmd`, `close`
and `accept`.  Any number of workers take their steps in any order with those of the main
thread.

File descriptors are numbers that are used again after they have been closed.  Next to what
the program knows, the state therefore records the connection that every open descriptor
stands for, numbered in the order in which they were accepted, and the history of the run:
the requests that have been received, the renderings that have been completed and the
messages that have been sent.
-/

open Transition RenderThread

/-- A request that has been received, with the connection it came from. -/
structure Received where
  conn : ℕ
  fd : ℤ
  req : Protocol

/-- A rendering that has been completed: what has been rendered, and how many requests had
been received at its end. -/
structure Rendering where
  xmlname : List UInt8
  options : List UInt8
  mx : Int32
  my : Int32
  z : Int32
  received : ℕ

/-- A message to a client: the request it answers, the message, the descriptor it is sent to and
the connection that the descriptor stands for at this time. -/
structure Sent where
  request : ℕ
  message : Protocol
  fd : ℤ
  conn : Option ℕ

/-- Where the main thread is in `process_loop`: in the loop over the descriptors, between
receiving a request and the call of `rx_request`, before the call of `send_cmd` for a request
that is not done, or between clearing and closing a descriptor. -/
inductive MainThread where
  | polling
  | received (request : ℕ) (req : Protocol) (fd : ℤ)
  | notDone (request : ℕ) (req : Protocol) (fd : ℤ)
  | closing (fd : ℤ)

/-- Where a worker is: waiting for an item, rendering one, or in the loop of `send_response`. -/
inductive Worker where
  | idle
  | rendering (item : Ptr)
  | responding (rsp : ProtoCmd) (item : Option Ptr)

/-- The daemon.  An address in `allocated` is that of an item that has not been freed, and
`requestOf` is the request that the item at an address was made for. -/
structure Renderd where
  queue : QueueRun
  allocated : List Ptr
  conns : ℤ → Option ℕ
  main : MainThread
  workers : ℕ → Worker
  accepts : ℕ
  requestOf : Ptr → ℕ
  received : List Received
  rendered : List Rendering
  sent : List Sent

/-- How a worker deals with an item: a rendering thread renders it, a slave thread passes it on
and gets a response. -/
inductive Job where
  | render (o : RenderOutcome)
  | slave (old : Protocol) (rsp : ProtoCmd)

/-- A step of one of the threads.  The result of `malloc` in `rx_request` is an address, or
`none`. -/
inductive ThreadStep where
  | accept (fd : ℤ)
  | receive (fd : ℤ) (req : Protocol)
  | rxRequest (address : Option ℕ)
  | sendNotDone
  | clear (fd : ℤ)
  | close
  | fetch (worker : ℕ)
  | finish (worker : ℕ) (job : Job)
  | respond (worker : ℕ)

/-- The origin of the metatile of a tile, in one direction. -/
def metatileOrigin (x : Int32) : Int32 := x &&& ~~~7

namespace Job

/-- The calls of `send_response` that end the job. -/
def responses (maps : List XmlMapConfig) (item : Item) : Job → List Response
  | .render o => renderItem maps item o
  | .slave _ rsp => [⟨rsp, -1⟩]

/-- What a job has rendered when it ends with the item done.  A slave renders the request that
was passed on to it. -/
def rendering (item : Item) (received : ℕ) : Job → Rendering
  | .render _ => {
      xmlname := item.req.xmlnameString, options := item.req.optionsString
      mx := item.mx, my := item.my, z := item.req.z, received := received }
  | .slave old _ =>
      let req := SlaveThread.reqSlave item.req old
      { xmlname := req.xmlnameString, options := req.optionsString
        mx := metatileOrigin req.x, my := metatileOrigin req.y, z := req.z, received := received }

end Job

namespace Renderd

/-- The daemon before the first connection. -/
def init (m : Heap) : Renderd where
  queue := .init m
  allocated := []
  conns := fun _ => none
  main := .polling
  workers := fun _ => .idle
  accepts := 0
  requestOf := fun _ => 0
  received := []
  rendered := []
  sent := []

/-- The content of memory. -/
def heap (s : Renderd) : Heap := s.queue.queue.heap

/-- The request after the upgrade to the third version of the protocol. -/
def upgrade (req : Protocol) : Protocol :=
  let req :=
    if req.ver = 1 then
      { req with xmlname := Bytes.storeString (Bytes.ofString "default") req.xmlname }
    else req
  if req.ver < 3 then
    { req with
      mimetype := Bytes.storeString (Bytes.ofString "image/png") req.mimetype
      options := req.options.set ⟨0, by decide⟩ 0 }
  else req

/-- The commands that `rx_request` puts into the queue. -/
def acceptsCmd (cmd : ProtoCmd) : Bool :=
  Protocol.isRender cmd || cmd = .cmdDirty

/-- The item for a request, in memory with the content `old`. -/
def newItem (old : Item) (req : Protocol) (fd : ℤ) : Item :=
  { old with
    req := req
    duplicates := none
    fd := if req.cmd = .cmdDirty then fdInvalid else fd
    mx := metatileOrigin req.x
    my := metatileOrigin req.y }

/-- The call of `rx_request` for a received request. -/
def rxRequest (s : Renderd) (request : ℕ) (req : Protocol) (fd : ℤ) (address : Option ℕ) :
    Option Renderd :=
  let req := upgrade req
  if req.ver > 3 ∨ acceptsCmd req.cmd = false then
    some { s with main := .notDone request req fd }
  else
    match address with
    | none => some { s with main := .notDone request req fd }
    | some n =>
        if .item n ∈ s.allocated then none
        else do
          let item := newItem (s.heap (.item n)) req fd
          let r := s.queue.added n item
          let queue ← s.queue.step (.add n item)
          return { s with
            queue := queue
            allocated := if r.freed then s.allocated else .item n :: s.allocated
            requestOf := Function.update s.requestOf (.item n) request
            main := if r.status = .cmdNotDone then .notDone request req fd else .polling }

/-- One round of the loop of `send_response` for the item at `p`.  The item is freed. -/
def sendItem (s : Renderd) (worker : ℕ) (rsp : ProtoCmd) (p : Ptr) : Renderd :=
  let item := s.heap p
  let s :=
    if item.fd ≠ fdInvalid ∧ Protocol.isRender item.req.cmd then
      { s with
        sent := s.sent ++ [{
          request := s.requestOf p, message := { item.req with cmd := rsp }
          fd := item.fd, conn := s.conns item.fd }] }
    else s
  { s with
    allocated := s.allocated.erase p
    workers := Function.update s.workers worker (.responding rsp item.duplicates) }

/-- The step of the daemon for an action. -/
def step (maps : List XmlMapConfig) (s : Renderd) : ThreadStep → Option Renderd
  | .accept fd =>
      match s.main with
      | .polling =>
          if 0 ≤ fd ∧ s.conns fd = none then
            some { s with
              conns := Function.update s.conns fd (some s.accepts)
              accepts := s.accepts + 1 }
          else none
      | _ => none
  | .receive fd req =>
      match s.main, s.conns fd with
      | .polling, some conn =>
          some { s with
            received := s.received ++ [{ conn := conn, fd := fd, req := req }]
            main := .received s.received.length req fd }
      | _, _ => none
  | .rxRequest address =>
      match s.main with
      | .received request req fd => s.rxRequest request req fd address
      | _ => none
  | .sendNotDone =>
      match s.main with
      | .notDone request req fd =>
          some { s with
            sent := s.sent ++ [{
              request := request, message := { req with cmd := .cmdNotDone }
              fd := fd, conn := s.conns fd }]
            main := .polling }
      | _ => none
  | .clear fd =>
      match s.main, s.conns fd with
      | .polling, some _ => do
          let queue ← s.queue.step (.clear fd)
          return { s with queue := queue, main := .closing fd }
      | _, _ => none
  | .close =>
      match s.main with
      | .closing fd =>
          some { s with conns := Function.update s.conns fd none, main := .polling }
      | _ => none
  | .fetch worker =>
      match s.workers worker with
      | .idle => do
          let (p, _) ← s.queue.queue.requestQueueFetchRequest
          let queue ← s.queue.step .fetch
          return { s with
            queue := queue
            workers := Function.update s.workers worker (.rendering p) }
      | _ => none
  | .finish worker job =>
      match s.workers worker with
      | .rendering p =>
          match job.responses maps (s.heap p) with
          | [r] => do
              let queue ← s.queue.step (.remove p r.renderTime)
              return { s with
                queue := queue
                workers := Function.update s.workers worker (.responding r.cmd (some p))
                rendered :=
                  if r.cmd = .cmdDone then
                    s.rendered ++ [job.rendering (s.heap p) s.received.length]
                  else s.rendered }
          | _ => none
      | _ => none
  | .respond worker =>
      match s.workers worker with
      | .responding _ none =>
          some { s with workers := Function.update s.workers worker .idle }
      | .responding rsp (some p) => some (s.sendItem worker rsp p)
      | _ => none

end Renderd
