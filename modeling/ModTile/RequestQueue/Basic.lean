import Mathlib.Data.Fin.Basic
import ModTile.Linked.Chain
import ModTile.Protocol.Basic

/-!
# The request queue

The data structures and operations of `request_queue.c`.  A request waits on one of five
lists and is moved to the render list when a worker fetches it.  The lists are circular
and doubly linked through the items, with heads inside the queue structure; items are
found through a hash index of buckets with an inline first entry; a request for a metatile
that is already queued is hung into the chain of duplicates of the queued item.

Memory is a function from addresses to items.  Every operation runs under the lock of the
queue, so it is one function from the queue before to the queue after.  An operation that
waits for a condition, or whose behaviour C leaves undefined, returns `none`.
-/

/-- The lists an item can be on, as the item records them. -/
inductive QueueEnum where
  | queueRequest
  | queueRequestPrio
  | queueRequestBulk
  | queueDirty
  | queueRender
  | queueDuplicate
  | queueRequestLow
  deriving DecidableEq

/-- The six list heads in `struct request_queue`. -/
inductive ListHead where
  | reqHead
  | reqPrioHead
  | reqLowHead
  | reqBulkHead
  | dirtyHead
  | renderHead
  deriving DecidableEq

/-- The value of `inQueue` that names a list. -/
def ListHead.inQueue : ListHead → QueueEnum
  | .reqHead => .queueRequest
  | .reqPrioHead => .queueRequestPrio
  | .reqLowHead => .queueRequestLow
  | .reqBulkHead => .queueRequestBulk
  | .dirtyHead => .queueDirty
  | .renderHead => .queueRender

/-- The address of a `struct item`: one of the heads inside the queue, or an allocated one. -/
inductive Ptr where
  | head (h : ListHead)
  | item (n : ℕ)
  deriving DecidableEq

/-- `struct item`: a request on its way through the queue. -/
structure Item where
  next : Ptr
  prev : Ptr
  req : Protocol
  mx : Int32
  my : Int32
  fd : ℤ
  duplicates : Option Ptr
  inQueue : QueueEnum
  originatedQueue : QueueEnum
  deriving DecidableEq

/-- The memory that the pointers of the queue lead to. -/
abbrev Heap : Type := Ptr → Item

namespace Heap

/-- The write `p->next = v`. -/
def setNext (m : Heap) (p v : Ptr) : Heap := Function.update m p { m p with next := v }

/-- The write `p->prev = v`. -/
def setPrev (m : Heap) (p v : Ptr) : Heap := Function.update m p { m p with prev := v }

/-- The write `p->duplicates = v`. -/
def setDuplicates (m : Heap) (p : Ptr) (v : Option Ptr) : Heap :=
  Function.update m p { m p with duplicates := v }

/-- The write `p->inQueue = v`. -/
def setInQueue (m : Heap) (p : Ptr) (v : QueueEnum) : Heap :=
  Function.update m p { m p with inQueue := v }

/-- The write `p->originatedQueue = v`. -/
def setOriginatedQueue (m : Heap) (p : Ptr) (v : QueueEnum) : Heap :=
  Function.update m p { m p with originatedQueue := v }

/-- The write `p->fd = v`. -/
def setFd (m : Heap) (p : Ptr) (v : ℤ) : Heap := Function.update m p { m p with fd := v }

end Heap

/-- `struct item_idx`: a bucket of the hash index, with its first entry inline and the
entries of the allocated nodes after it. -/
structure ItemIdx where
  next : List Ptr
  item : Option Ptr
  deriving DecidableEq

namespace ItemIdx

/-- The bucket with an entry added: in the inline place if that is empty, otherwise in a new
node at the end. -/
def insert (bucket : ItemIdx) (p : Ptr) : ItemIdx :=
  match bucket.item with
  | none => { bucket with item := some p }
  | some _ => { bucket with next := bucket.next ++ [p] }

/-- The bucket without the first entry that satisfies `found`.  When that is the inline one, the
entry of the first node is copied into its place and the node is freed. -/
def remove (bucket : ItemIdx) (found : Ptr → Bool) : ItemIdx :=
  match bucket.item with
  | none => bucket
  | some first =>
      if found first then
        match bucket.next with
        | [] => { next := [], item := none }
        | second :: rest => { next := rest, item := some second }
      else { bucket with next := bucket.next.eraseP found }

end ItemIdx

/-- The counters of `stats_struct`. -/
structure StatsStruct where
  noDirtyRender : ℤ
  noReqRender : ℤ
  noReqPrioRender : ℤ
  noReqLowRender : ℤ
  noReqBulkRender : ℤ
  noReqDroped : ℤ
  noZoomRender : Fin (maxZoom + 1) → ℤ
  timeReqRender : ℤ
  timeReqPrioRender : ℤ
  timeReqLowRender : ℤ
  timeReqBulkRender : ℤ
  timeReqDirty : ℤ
  timeZoomRender : Fin (maxZoom + 1) → ℤ

/-- The number of buckets of the hash index. -/
def hashidxSize : ℕ := 2213

/-- `struct request_queue` together with the memory its pointers lead to. -/
structure RequestQueue where
  heap : Heap
  itemHashidx : Fin hashidxSize → ItemIdx
  reqNum : ℕ
  reqPrioNum : ℕ
  reqLowNum : ℕ
  reqBulkNum : ℕ
  dirtyNum : ℕ
  stats : StatsStruct

namespace RequestQueue

/-- The queue in memory in which an item has been written to the allocation `n`. -/
def write (q : RequestQueue) (n : ℕ) (item : Item) : RequestQueue :=
  { q with heap := Function.update q.heap (.item n) item }

/-! ### The hash index -/

/-- The sum that `calcHashKey` forms over the name, in 64 bits and with signed characters. -/
def xmlnameHash (item : Item) : UInt64 :=
  (Bytes.cString item.req.xmlname.toList).foldl (fun hash c => hash + c.toInt8.toInt64.toUInt64) 0

/-- The bucket of an item. -/
def calcHashKey (item : Item) : Fin hashidxSize :=
  let key : UInt64 := ((xmlnameHash item &&& 0x1FF) <<< 52) + (item.req.z.toInt64.toUInt64 <<< 48) +
    ((item.mx &&& 0xFFFFFF).toInt64.toUInt64 <<< 24) + (item.my &&& 0xFFFFFF).toInt64.toUInt64
  ⟨key.toNat % hashidxSize, Nat.mod_lt _ (by decide)⟩

/-- The test by which the index recognises an item. -/
def sameItem (item test : Item) : Bool :=
  item.mx = test.mx && item.my = test.my && item.req.z = test.req.z &&
    item.req.xmlnameString = test.req.xmlnameString

/-- The first entry of the bucket of `item` that is the same item. -/
def lookupItemIdx (q : RequestQueue) (item : Item) : Option Ptr :=
  let bucket := q.itemHashidx (calcHashKey item)
  match bucket.item with
  | none => none
  | some first => (first :: bucket.next).find? fun test => sameItem item (q.heap test)

/-- The index with the item at `p` added. -/
def insertItemIdx (q : RequestQueue) (p : Ptr) : RequestQueue :=
  let key := calcHashKey (q.heap p)
  { q with itemHashidx := Function.update q.itemHashidx key ((q.itemHashidx key).insert p) }

/-- The index without the item at `p`. -/
def removeItemIdx (q : RequestQueue) (p : Ptr) : RequestQueue :=
  let key := calcHashKey (q.heap p)
  { q with
    itemHashidx := Function.update q.itemHashidx key
      ((q.itemHashidx key).remove fun test => sameItem (q.heap p) (q.heap test)) }

/-! ### The counters -/

/-- The counter of a list. -/
def num (q : RequestQueue) : ListHead → ℕ
  | .reqHead => q.reqNum
  | .reqPrioHead => q.reqPrioNum
  | .reqLowHead => q.reqLowNum
  | .reqBulkHead => q.reqBulkNum
  | .dirtyHead => q.dirtyNum
  | .renderHead => 0

/-- The queue with another value in the counter of a list. -/
def setNum (q : RequestQueue) (h : ListHead) (n : ℕ) : RequestQueue :=
  match h with
  | .reqHead => { q with reqNum := n }
  | .reqPrioHead => { q with reqPrioNum := n }
  | .reqLowHead => { q with reqLowNum := n }
  | .reqBulkHead => { q with reqBulkNum := n }
  | .dirtyHead => { q with dirtyNum := n }
  | .renderHead => q

/-- The statistics with one more request fetched from a list. -/
def countFetch (stats : StatsStruct) : ListHead → StatsStruct
  | .reqHead => { stats with noReqRender := stats.noReqRender + 1 }
  | .reqPrioHead => { stats with noReqPrioRender := stats.noReqPrioRender + 1 }
  | .reqLowHead => { stats with noReqLowRender := stats.noReqLowRender + 1 }
  | .reqBulkHead => { stats with noReqBulkRender := stats.noReqBulkRender + 1 }
  | .dirtyHead => { stats with noDirtyRender := stats.noDirtyRender + 1 }
  | .renderHead => stats

/-- The statistics with the rendering time of a request added to those of the list it came
from. -/
def countTime (stats : StatsStruct) (originatedQueue : QueueEnum) (renderTime : ℤ) : StatsStruct :=
  match originatedQueue with
  | .queueRequestPrio => { stats with timeReqPrioRender := stats.timeReqPrioRender + renderTime }
  | .queueRequest => { stats with timeReqRender := stats.timeReqRender + renderTime }
  | .queueRequestLow => { stats with timeReqLowRender := stats.timeReqLowRender + renderTime }
  | .queueDirty => { stats with timeReqDirty := stats.timeReqDirty + renderTime }
  | .queueRequestBulk => { stats with timeReqBulkRender := stats.timeReqBulkRender + renderTime }
  | .queueRender | .queueDuplicate => stats

/-- The statistics with a request rendered at zoom level `z` in the given time.  The zoom level
is an index into two arrays, and nothing is defined when it is outside of them. -/
def countZoom (stats : StatsStruct) (z : Int32) (renderTime : ℤ) : Option StatsStruct :=
  if h : 0 ≤ z.toInt ∧ z.toInt < maxZoom + 1 then
    let i : Fin (maxZoom + 1) := ⟨z.toInt.toNat, by omega⟩
    some { stats with
      noZoomRender := Function.update stats.noZoomRender i (stats.noZoomRender i + 1)
      timeZoomRender :=
        Function.update stats.timeZoomRender i (stats.timeZoomRender i + renderTime) }
  else none

/-! ### Adding a request -/

/-- What became of an added item: the status that is returned, whether the item was freed,
and the queue. -/
structure Added where
  status : ProtoCmd
  freed : Bool
  queue : RequestQueue

/-- Puts the item at `test` in front of the duplicates of `item`. -/
def attach (q : RequestQueue) (item test : Ptr) : RequestQueue :=
  let m := q.heap.setDuplicates test (q.heap item).duplicates
  let m := m.setDuplicates item (some test)
  { q with heap := m.setInQueue test .queueDuplicate }

/-- Looks for the item at `test` in the index.  If it is queued or being rendered there, the item
at `test` is added to its duplicates. -/
def pending (q : RequestQueue) (test : Ptr) : ProtoCmd × RequestQueue :=
  match lookupItemIdx q (q.heap test) with
  | none => (.cmdRender, q)
  | some item =>
      match (q.heap item).inQueue with
      | .queueRender | .queueRequest | .queueRequestPrio | .queueRequestLow =>
          (.cmdIgnore, q.attach item test)
      | .queueDirty | .queueRequestBulk => (.cmdNotDone, q)
      | .queueDuplicate => (.cmdRender, q)

/-- Puts the item at `p` at the end of a list. -/
def linkLast (m : Heap) (list : ListHead) (p : Ptr) : Heap :=
  let m := m.setNext p (.head list)
  let m := m.setPrev p (m (.head list)).prev
  let m := m.setNext (m p).prev p
  m.setPrev (.head list) p

/-- Marks the item at `p` as being on a list, counts it, and puts it at the end of the list and
into the index. -/
def enqueue (q : RequestQueue) (list : ListHead) (p : Ptr) : RequestQueue :=
  let m := (q.heap.setInQueue p list.inQueue).setOriginatedQueue p list.inQueue
  let q := q.setNum list (q.num list + 1)
  insertItemIdx { q with heap := linkLast m list p } p

/-- Adds the item at `p`: as a duplicate, to the list of its command, or, when that is full or
has no list, to the dirty list, where nobody waits for it. -/
def requestQueueAddRequest (q : RequestQueue) (p : Ptr) : Added :=
  match pending q p with
  | (.cmdNotDone, q) => ⟨.cmdNotDone, true, q⟩
  | (.cmdIgnore, q) => ⟨.cmdIgnore, false, q⟩
  | (_, q) =>
      let cmd := (q.heap p).req.cmd
      if cmd = .cmdRender ∧ q.reqNum < reqLimit then
        ⟨.cmdIgnore, false, q.enqueue .reqHead p⟩
      else if cmd = .cmdRenderPrio ∧ q.reqPrioNum < reqLimit then
        ⟨.cmdIgnore, false, q.enqueue .reqPrioHead p⟩
      else if cmd = .cmdRenderLow ∧ q.reqLowNum < reqLimit then
        ⟨.cmdIgnore, false, q.enqueue .reqLowHead p⟩
      else if cmd = .cmdRenderBulk ∧ q.reqBulkNum < reqLimit then
        ⟨.cmdIgnore, false, q.enqueue .reqBulkHead p⟩
      else if q.dirtyNum < dirtyLimit then
        ⟨.cmdNotDone, false, { q with heap := q.heap.setFd p fdInvalid }.enqueue .dirtyHead p⟩
      else
        ⟨.cmdNotDone, true,
          { q with stats := { q.stats with noReqDroped := q.stats.noReqDroped + 1 } }⟩

/-! ### Fetching and removing a request -/

/-- Takes the item at `p` out of the list it is on. -/
def unlink (m : Heap) (p : Ptr) : Heap :=
  let m := m.setPrev (m p).next (m p).prev
  m.setNext (m p).prev (m p).next

/-- Puts the item at `p` first on the render list. -/
def linkRender (m : Heap) (p : Ptr) : Heap :=
  let m := m.setPrev p (.head .renderHead)
  let m := m.setNext p (m (.head .renderHead)).next
  let m := m.setPrev (m (.head .renderHead)).next p
  let m := m.setNext (.head .renderHead) p
  m.setInQueue p .queueRender

/-- Moves the first item of a list to the render list. -/
def fetchFrom (q : RequestQueue) (list : ListHead) : Ptr × RequestQueue :=
  let item := (q.heap (.head list)).next
  let q := q.setNum list (q.num list - 1)
  (item, { q with
    heap := linkRender (unlink q.heap item) item
    stats := countFetch q.stats list })

/-- Moves a waiting item to the render list and returns it.  Without a waiting item the caller
waits on the condition of the queue. -/
def requestQueueFetchRequest (q : RequestQueue) : Option (Ptr × RequestQueue) :=
  if q.reqPrioNum ≠ 0 then some (q.fetchFrom .reqPrioHead)
  else if q.reqNum ≠ 0 then some (q.fetchFrom .reqHead)
  else if q.reqLowNum ≠ 0 then some (q.fetchFrom .reqLowHead)
  else if q.dirtyNum ≠ 0 then some (q.fetchFrom .dirtyHead)
  else if q.reqBulkNum ≠ 0 then some (q.fetchFrom .reqBulkHead)
  else none

/-- The statistics after a request has been rendered, if that took time. -/
def countRender (stats : StatsStruct) (request : Item) (renderTime : ℤ) : Option StatsStruct :=
  if renderTime > 0 then
    countZoom (countTime stats request.originatedQueue renderTime) request.req.z renderTime
  else some stats

/-- Takes the item at `request` off its list and out of the index, and counts its rendering. -/
def requestQueueRemoveRequest (q : RequestQueue) (request : Ptr) (renderTime : ℤ) :
    Option RequestQueue := do
  let stats ← countRender q.stats (q.heap request) renderTime
  return removeItemIdx { q with heap := unlink q.heap request, stats := stats } request

/-! ### Clearing a file descriptor -/

/-- The write to an item in the loops over the items. -/
def clearFd (m : Heap) (fd : ℤ) (p : Ptr) : Heap :=
  if (m p).fd = fd then m.setFd p fdInvalid else m

/-- The loop over the duplicates of an item.  It is given a number of rounds, and returns `none`
when they do not suffice. -/
def clearDupes (fd : ℤ) : ℕ → Heap → Option Ptr → Option Heap
  | _, m, none => some m
  | 0, _, some _ => none
  | rounds + 1, m, some dupes =>
      let m := clearFd m fd dupes
      clearDupes fd rounds m (m dupes).duplicates

/-- The loop over the items of a list, from the item at `item` on. -/
def clearList (fd : ℤ) (queueHead : Ptr) (dupeRounds : ℕ) : ℕ → Heap → Ptr → Option Heap
  | 0, m, item => if item = queueHead then some m else none
  | rounds + 1, m, item =>
      if item = queueHead then some m
      else do
        let m := clearFd m fd item
        let m ← clearDupes fd dupeRounds m (m item).duplicates
        clearList fd queueHead dupeRounds rounds m (m item).next

/-- The lists the function looks through.  The requests on the dirty list have no file
descriptor already. -/
def clearedLists : List ListHead := [.reqHead, .renderHead, .reqPrioHead, .reqBulkHead, .reqLowHead]

/-- Removes a file descriptor from all requests, with the given number of rounds for each
loop. -/
def requestQueueClearRequestsByFd (rounds : ℕ) (q : RequestQueue) (fd : ℤ) :
    Option RequestQueue := do
  let m ← clearedLists.foldlM
    (fun m list => clearList fd (.head list) rounds rounds m (m (.head list)).next) q.heap
  return { q with heap := m }

/-! ### The initial queue -/

/-- The counters of a new queue. -/
def statsInit : StatsStruct where
  noDirtyRender := 0
  noReqRender := 0
  noReqPrioRender := 0
  noReqLowRender := 0
  noReqBulkRender := 0
  noReqDroped := 0
  noZoomRender := fun _ => 0
  timeReqRender := 0
  timeReqPrioRender := 0
  timeReqLowRender := 0
  timeReqBulkRender := 0
  timeReqDirty := 0
  timeZoomRender := fun _ => 0

/-- The queue that is made in memory `m`: every list head points to itself and every bucket is
empty. -/
def requestQueueInit (m : Heap) : RequestQueue where
  heap
    | .head list => { m (.head list) with next := .head list, prev := .head list }
    | .item n => m (.item n)
  itemHashidx := fun _ => { next := [], item := none }
  reqNum := 0
  reqPrioNum := 0
  reqLowNum := 0
  reqBulkNum := 0
  dirtyNum := 0
  stats := statsInit

end RequestQueue

/-- A new item with a request for the metatile of the tile `x`, `0` at zoom level 4. -/
def Item.sample (cmd : ProtoCmd) (x : Int32) (fd : ℤ) : Item where
  next := .head .reqHead
  prev := .head .reqHead
  req := {
    ver := 3, cmd := cmd, x := x, y := 0, z := 4
    xmlname := .replicate _ 0, mimetype := .replicate _ 0, options := .replicate _ 0 }
  mx := x &&& ~~~7
  my := 0
  fd := fd
  duplicates := none
  inQueue := .queueRequest
  originatedQueue := .queueRequest
