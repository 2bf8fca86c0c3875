import ModTile.RequestQueue.Operations

/-!
# The calls of the queue

What each call of the queue can do, in terms of the view.  Adding a request has five
outcomes, `AddOutcome`; fetching one takes the first item of the first list that is not
empty, in the order prio, request, low, dirty, bulk.
-/

open Linked

namespace View

/-- The view without items. -/
def empty : View where
  lists := fun _ => []
  dups := fun _ => []

end View

/-- The list a command asks for. -/
def ListHead.ofCmd : ProtoCmd → ListHead
  | .cmdRender => .reqHead
  | .cmdRenderPrio => .reqPrioHead
  | .cmdRenderLow => .reqLowHead
  | .cmdRenderBulk => .reqBulkHead
  | _ => .dirtyHead

/-- An item on this list takes duplicates. -/
def ListHead.takesDuplicates : ListHead → Bool
  | .dirtyHead | .reqBulkHead => false
  | _ => true

namespace RequestQueue

variable {q : RequestQueue} {v : View} {n : ℕ} {m : Heap}

/-- A new queue is empty. -/
theorem represents_init :
  Represents (requestQueueInit m) View.empty
  := by
  have hlisted : ∀ {p}, ¬ View.empty.Listed p := by
    rintro p ⟨list, h⟩
    simp [View.empty] at h
  constructor
  case rings =>
    constructor
    · intro list
      apply ring_nil rfl rfl
    · intro list list' x hne h
      simp only [View.empty, List.mem_cons, List.not_mem_nil, or_false] at h ⊢
      rw [h]
      simpa using hne
  case inQueue =>
    intro list p h
    apply absurd ⟨list, h⟩ hlisted
  case isItem =>
    rintro p (h | ⟨t, h, -⟩)
    · apply absurd h hlisted
    · apply absurd h hlisted
  case num =>
    intro list _
    cases list <;> rfl
  case limit =>
    intro list _
    apply Nat.zero_le
  case chain =>
    intro p h
    apply absurd h hlisted
  case dupQueue =>
    intro p d h
    apply absurd h hlisted
  case dupKey =>
    intro p d h
    apply absurd h hlisted
  case keyUnique =>
    intro p p' h
    apply absurd h hlisted
  case bucket =>
    intro k _
    rfl
  case bucketNodup =>
    intro k
    apply List.nodup_nil
  case mem_bucket =>
    intro k p
    constructor
    · intro h
      simp [requestQueueInit, ItemIdx.entries] at h
    · rintro ⟨h, -⟩
      apply absurd h hlisted

/-- What adding the item at `n` can come to, with the view after it. -/
inductive AddOutcome (q : RequestQueue) (v : View) (n : ℕ) : Added → View → Prop where
  /-- An item with the same key waits or is being rendered, and gets a duplicate. -/
  | duplicate (t : Ptr) (list : ListHead) (ht : t ∈ v.lists list)
      (hkey : (q.heap (.item n)).key = (q.heap t).key) (htakes : list.takesDuplicates) :
      AddOutcome q v n ⟨.cmdIgnore, false, q.attach t (.item n)⟩ (v.attach t (.item n))
  /-- An item with the same key waits on the dirty or the bulk list. -/
  | refused (t : Ptr) (list : ListHead) (ht : t ∈ v.lists list)
      (hkey : (q.heap (.item n)).key = (q.heap t).key) (htakes : list.takesDuplicates = false) :
      AddOutcome q v n ⟨.cmdNotDone, true, q⟩ v
  /-- The list of the command has room for the item. -/
  | queued (list : ListHead) (hlist : list = .ofCmd (q.heap (.item n)).req.cmd)
      (hdirty : list ≠ .dirtyHead) (hroom : (v.lists list).length < reqLimit) :
      AddOutcome q v n ⟨.cmdIgnore, false, q.enqueue list (.item n)⟩ (v.enqueue list (.item n))
  /-- The list of the command is full or there is none, and the dirty list has room. -/
  | dirty (hfull : ListHead.ofCmd (q.heap (.item n)).req.cmd ≠ .dirtyHead →
        (v.lists (.ofCmd (q.heap (.item n)).req.cmd)).length = reqLimit)
      (hroom : (v.lists .dirtyHead).length < dirtyLimit) :
      AddOutcome q v n ⟨.cmdNotDone, false,
        { q with heap := q.heap.setFd (.item n) fdInvalid }.enqueue .dirtyHead (.item n)⟩
        (v.enqueue .dirtyHead (.item n))
  /-- Both are full. -/
  | dropped (hfull : ListHead.ofCmd (q.heap (.item n)).req.cmd ≠ .dirtyHead →
        (v.lists (.ofCmd (q.heap (.item n)).req.cmd)).length = reqLimit)
      (hdirty : (v.lists .dirtyHead).length = dirtyLimit) :
      AddOutcome q v n ⟨.cmdNotDone, true,
        { q with stats := { q.stats with noReqDroped := q.stats.noReqDroped + 1 } }⟩ v

/-- The branches of `requestQueueAddRequest` after the search, by the list of the command. -/
def addNew (q : RequestQueue) (p : Ptr) : Added :=
  let list := ListHead.ofCmd (q.heap p).req.cmd
  if list ≠ .dirtyHead ∧ q.num list < reqLimit then ⟨.cmdIgnore, false, q.enqueue list p⟩
  else if q.dirtyNum < dirtyLimit then
    ⟨.cmdNotDone, false, { q with heap := q.heap.setFd p fdInvalid }.enqueue .dirtyHead p⟩
  else
    ⟨.cmdNotDone, true, { q with stats := { q.stats with noReqDroped := q.stats.noReqDroped + 1 } }⟩

/-- The search, followed by the branches of its result. -/
theorem addRequest_eq {p : Ptr} :
  q.requestQueueAddRequest p =
    match lookupItemIdx q (q.heap p) with
    | none => q.addNew p
    | some item =>
        match (q.heap item).inQueue with
        | .queueRender | .queueRequest | .queueRequestPrio | .queueRequestLow =>
            ⟨.cmdIgnore, false, q.attach item p⟩
        | .queueDirty | .queueRequestBulk => ⟨.cmdNotDone, true, q⟩
        | .queueDuplicate => q.addNew p
  := by
  have hnew : ∀ cmd : ProtoCmd, (q.heap p).req.cmd = cmd → q.addNew p =
      if cmd = .cmdRender ∧ q.reqNum < reqLimit then ⟨.cmdIgnore, false, q.enqueue .reqHead p⟩
      else if cmd = .cmdRenderPrio ∧ q.reqPrioNum < reqLimit then
        ⟨.cmdIgnore, false, q.enqueue .reqPrioHead p⟩
      else if cmd = .cmdRenderLow ∧ q.reqLowNum < reqLimit then
        ⟨.cmdIgnore, false, q.enqueue .reqLowHead p⟩
      else if cmd = .cmdRenderBulk ∧ q.reqBulkNum < reqLimit then
        ⟨.cmdIgnore, false, q.enqueue .reqBulkHead p⟩
      else if q.dirtyNum < dirtyLimit then
        ⟨.cmdNotDone, false, { q with heap := q.heap.setFd p fdInvalid }.enqueue .dirtyHead p⟩
      else
        ⟨.cmdNotDone, true,
          { q with stats := { q.stats with noReqDroped := q.stats.noReqDroped + 1 } }⟩ := by
    intro cmd hcmd
    rw [addNew, hcmd]
    cases cmd <;> simp [ListHead.ofCmd, num]
  rw [hnew _ rfl, requestQueueAddRequest, pending]
  cases lookupItemIdx q (q.heap p) with
  | none => rfl
  | some item => cases hq : (q.heap item).inQueue <;> simp [hq]

end RequestQueue

/-- The order in which the lists are served. -/
def fetchOrder : List ListHead := [.reqPrioHead, .reqHead, .reqLowHead, .dirtyHead, .reqBulkHead]

namespace RequestQueue

variable {q : RequestQueue}

/-- A fetch serves the first list in the order with an item that waits. -/
theorem fetchRequest_eq :
  q.requestQueueFetchRequest = (fetchOrder.find? fun list => q.num list ≠ 0).map q.fetchFrom
  := by
  simp only [requestQueueFetchRequest, fetchOrder, List.find?_cons, num, List.find?_nil]
  by_cases hprio : q.reqPrioNum = 0 <;> by_cases hreq : q.reqNum = 0 <;>
    by_cases hlow : q.reqLowNum = 0 <;> by_cases hdirty : q.dirtyNum = 0 <;>
    by_cases hbulk : q.reqBulkNum = 0 <;> simp [hprio, hreq, hlow, hdirty, hbulk]

end RequestQueue

namespace Represents

open RequestQueue

variable {q q' : RequestQueue} {v : View} {n : ℕ} {p : Ptr}

/-- Adding a new item has one of the five outcomes, and the queue represents the view after it. -/
theorem addRequest (hr : Represents q v) (hfree : ¬ v.Held (.item n))
    (hdup : (q.heap (.item n)).duplicates = none) :
  ∃ v', AddOutcome q v n (q.requestQueueAddRequest (.item n)) v' ∧
    Represents (q.requestQueueAddRequest (.item n)).queue v'
  := by
  have hnew : (∀ t, v.Listed t → (q.heap (.item n)).key ≠ (q.heap t).key) →
      ∃ v', AddOutcome q v n (q.addNew (.item n)) v' ∧
        Represents (q.addNew (.item n)).queue v' := by
    intro hkey
    simp only [addNew]
    split
    · rename_i h
      obtain ⟨hdirty, hroom⟩ := h
      have hrender : ListHead.ofCmd (q.heap (.item n)).req.cmd ≠ .renderHead := by
        cases (q.heap (.item n)).req.cmd <;> simp [ListHead.ofCmd]
      rw [hr.num hrender] at hroom
      refine ⟨_, AddOutcome.queued _ rfl hdirty hroom, ?_⟩
      apply hr.enqueue hfree hdup hrender _ hkey
      cases hc : ListHead.ofCmd (q.heap (.item n)).req.cmd <;> simp_all [ListHead.limit]
    · rename_i h
      have hfull : ListHead.ofCmd (q.heap (.item n)).req.cmd ≠ .dirtyHead →
          (v.lists (.ofCmd (q.heap (.item n)).req.cmd)).length = reqLimit := by
        intro hdirty
        have hrender : ListHead.ofCmd (q.heap (.item n)).req.cmd ≠ .renderHead := by
          cases (q.heap (.item n)).req.cmd <;> simp [ListHead.ofCmd]
        have hge : reqLimit ≤ (v.lists (.ofCmd (q.heap (.item n)).req.cmd)).length := by
          rw [← hr.num hrender]
          by_contra hlt
          apply h ⟨hdirty, by omega⟩
        apply le_antisymm _ hge
        apply le_trans (hr.limit hrender)
        cases hc : ListHead.ofCmd (q.heap (.item n)).req.cmd <;> simp_all [ListHead.limit]
      have hdirty : ListHead.dirtyHead ≠ .renderHead := by simp
      have hnum : q.dirtyNum = (v.lists .dirtyHead).length := hr.num hdirty
      split
      · rename_i hroom
        rw [hnum] at hroom
        refine ⟨_, AddOutcome.dirty hfull hroom, ?_⟩
        have hr' : Represents { q with heap := q.heap.setFd (.item n) fdInvalid } v := by
          apply hr.congr
          case hindex => rfl
          case hnum =>
            intro list
            cases list <;> rfl
          all_goals
            intro a _
            dsimp only
            rw [Heap.setFd_apply]
            try rfl
        apply hr'.enqueue hfree
        · simpa using hdup
        · simp
        · apply hroom
        · intro t ht
          simpa [Item.key] using hkey t ht
      · rename_i hroom
        rw [hnum] at hroom
        have hdropped :=
          AddOutcome.dropped hfull (le_antisymm (hr.limit hdirty) (by simpa using hroom))
        refine ⟨_, hdropped, ?_⟩
        apply hr.congr
        case hindex => rfl
        case hnum =>
          intro list
          cases list <;> rfl
        all_goals
          intro a _
          rfl
  rw [addRequest_eq]
  cases hlookup : lookupItemIdx q (q.heap (.item n)) with
  | none => apply hnew ((hr.lookup_eq_none_iff _).mp hlookup)
  | some t =>
      obtain ⟨⟨list, ht⟩, hkey⟩ := (hr.lookup_eq_some_iff _).mp hlookup
      have hattach : Represents (q.attach t (.item n)) (v.attach t (.item n)) :=
        hr.attach hfree ⟨list, ht⟩ hkey
      dsimp only
      rw [hr.inQueue ht]
      cases list with
      | reqHead => exact ⟨_, AddOutcome.duplicate t _ ht hkey rfl, hattach⟩
      | reqPrioHead => exact ⟨_, AddOutcome.duplicate t _ ht hkey rfl, hattach⟩
      | reqLowHead => exact ⟨_, AddOutcome.duplicate t _ ht hkey rfl, hattach⟩
      | renderHead => exact ⟨_, AddOutcome.duplicate t _ ht hkey rfl, hattach⟩
      | reqBulkHead => exact ⟨_, AddOutcome.refused t _ ht hkey rfl, hr⟩
      | dirtyHead => exact ⟨_, AddOutcome.refused t _ ht hkey rfl, hr⟩

/-- A fetch takes the first item of the first list in the order that is not empty, and moves it
to the render list. -/
theorem fetchRequest (hr : Represents q v) (hq : q.requestQueueFetchRequest = some (p, q')) :
  ∃ list rest, list ≠ .renderHead ∧ v.lists list = p :: rest ∧
    (∀ list' ∈ fetchOrder.takeWhile (· ≠ list), v.lists list' = []) ∧
    q' = (q.fetchFrom list).2 ∧ Represents q' ((v.erase list p).render p)
  := by
  rw [fetchRequest_eq, Option.map_eq_some_iff] at hq
  obtain ⟨list, hfind, hq⟩ := hq
  have hmem := List.mem_of_find?_eq_some hfind
  have hne : ∀ {list'}, list' ∈ fetchOrder → list' ≠ .renderHead := by
    intro list' h
    rintro rfl
    simp [fetchOrder] at h
  have hnum := List.find?_some hfind
  rw [decide_eq_true_eq, hr.num (hne hmem), ne_eq, List.length_eq_zero_iff] at hnum
  obtain ⟨p', rest, hl⟩ := List.exists_cons_of_ne_nil hnum
  obtain ⟨hp, hr'⟩ := hr.fetchFrom (hne hmem) hl
  rw [hq] at hp hr'
  obtain rfl : p = p' := hp
  refine ⟨list, rest, hne hmem, hl, ?_, ?_, hr'⟩
  · intro list' h'
    obtain ⟨-, l₁, l₂, hsplit, hbefore⟩ := List.find?_eq_some_iff_append.mp hfind
    have htake : fetchOrder.takeWhile (· ≠ list) = l₁ := by
      rw [hsplit, List.takeWhile_append_of_pos, List.takeWhile_cons_of_neg, List.append_nil]
      · simp
      · intro x hx
        have hx := hbefore x hx
        rw [decide_eq_true_eq]
        rintro rfl
        rw [List.find?_some hfind] at hx
        simp at hx
    rw [htake] at h'
    have h0 := hbefore list' h'
    have hmem' : list' ∈ fetchOrder := by
      rw [hsplit]
      apply List.mem_append_left _ h'
    simpa [hr.num (hne hmem'), List.length_eq_zero_iff] using h0
  · rw [hq]

end Represents
