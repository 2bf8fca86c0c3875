import ModTile.Linked.Chain
import ModTile.SubmitQueue
import ModTile.Transition

/-!
# Runs of the queue of the submitting programs

The functions `enqueue`, `fetch` and `finish_workers` of `render_submit_queue.c`, called by any
number of threads.  What is done under the lock without waiting is one step.  A call of `enqueue`
first allocates a node and then appends it when the queue is not full; a call of `fetch` takes the
first node when there is one, and makes the command from it after it has given the lock back.

A call in progress is told by its node.  The state records for every address who uses the node
there, and the history of the run: the tiles in the order in which they have been appended, those
in the order in which they have been taken, and the commands that have been returned, each with
the place of its tile in that order.
-/

open Linked Transition

namespace SubmitQueue

/-- A node of the queue. -/
structure Node where
  item : QItem
  next : Option ℕ

/-- Who uses the memory at an address: nobody, a call of `enqueue` that has not appended the node
yet, the queue, or a call of `fetch` that has taken it as the tile with the given number. -/
inductive Owner where
  | free
  | enqueuing
  | queued
  | fetched (number : ℕ)
  deriving DecidableEq

/-- The exits of the program. -/
inductive Exit where
  | outOfMemory
  | nullHead
  deriving DecidableEq

/-- The queue, the calls in progress and the history. -/
structure Submit where
  heap : ℕ → Node
  qHead : Option ℕ
  qTail : Option ℕ
  qLen : UInt32
  qMaxLen : UInt32
  workComplete : Bool
  owner : ℕ → Owner
  exited : Option Exit
  enqueued : List QItem
  fetched : List QItem
  returned : List (ℕ × Protocol)

/-- A step of one of the threads: the allocation in `enqueue`, which may fail, and the part of it
under the lock; the part of `fetch` under the lock, and the rest of it, which makes the command in
memory with the content `old`; and `finish_workers`. -/
inductive SubmitStep where
  | malloc (item : QItem) (address : Option ℕ)
  | append (e : ℕ)
  | fetch
  | returns (e : ℕ) (old : Protocol)
  | finishWorkers

/-- What a call of `fetch` does when it has the lock: it waits, it returns the null pointer, it
ends the program, or it takes a node. -/
inductive FetchResult where
  | wait
  | null
  | exit
  | node (e : ℕ)
  deriving DecidableEq

namespace Submit

/-- The queue before the first call, for a number of workers. -/
def init (qMaxLen : UInt32) (heap : ℕ → Node) : Submit where
  heap := heap
  qHead := none
  qTail := none
  qLen := 0
  qMaxLen := qMaxLen
  workComplete := false
  owner := fun _ => .free
  exited := none
  enqueued := []
  fetched := []
  returned := []

/-- The pointers of the nodes. -/
def next (s : Submit) (e : ℕ) : Option ℕ := (s.heap e).next

/-- The tile in a node. -/
def item (s : Submit) (e : ℕ) : QItem := (s.heap e).item

/-- The state after `enqueue` has allocated the node at `e`. -/
def allocate (s : Submit) (item : QItem) (e : ℕ) : Submit :=
  { s with
    heap := Function.update s.heap e ⟨item, none⟩
    owner := Function.update s.owner e .enqueuing }

/-- The state after the node at `e` has been appended. -/
def appendNode (s : Submit) (e : ℕ) : Submit :=
  { s with
    heap :=
      match s.qTail with
      | some tail => Function.update s.heap tail { s.heap tail with next := some e }
      | none => s.heap
    qHead :=
      match s.qTail with
      | some _ => s.qHead
      | none => some e
    qTail := some e
    qLen := s.qLen + 1
    owner := Function.update s.owner e .queued
    enqueued := s.enqueued ++ [s.item e] }

/-- What a call of `fetch` does when it has the lock. -/
def fetchResult (s : Submit) : FetchResult :=
  if s.qLen = 0 then
    if s.workComplete then .null else .wait
  else
    match s.qHead with
    | none => .exit
    | some e => .node e

/-- The state after the first node, which is at `e`, has been taken. -/
def takeNode (s : Submit) (e : ℕ) : Submit :=
  { s with
    qHead := if s.qLen - 1 = 0 then none else s.next e
    qTail := if s.qLen - 1 = 0 then none else s.qTail
    qLen := s.qLen - 1
    owner := Function.update s.owner e (.fetched s.fetched.length)
    fetched := s.fetched ++ [s.item e] }

/-- The state after the command for the tile with the given number, which is in the node at `e`,
has been returned. -/
def returnCommand (s : Submit) (e number : ℕ) (old : Protocol) : Submit :=
  { s with
    owner := Function.update s.owner e .free
    returned := s.returned ++ [(number, fetchCommand old (s.item e))] }

/-- The step of a thread.  There is no result when it has to wait or is not at this point, and
when the program has ended. -/
def step (s : Submit) (a : SubmitStep) : Option Submit :=
  match s.exited with
  | some _ => none
  | none =>
      match a with
      | .malloc _ none => some { s with exited := some .outOfMemory }
      | .malloc item (some e) => if s.owner e = .free then some (s.allocate item e) else none
      | .append e =>
          if s.owner e = .enqueuing ∧ s.qLen ≠ s.qMaxLen then some (s.appendNode e) else none
      | .fetch =>
          match s.fetchResult with
          | .wait => none
          | .null => some s
          | .exit => some { s with exited := some .nullHead }
          | .node e => some (s.takeNode e)
      | .returns e old =>
          match s.owner e with
          | .fetched number => some (s.returnCommand e number old)
          | _ => none
      | .finishWorkers => some { s with workComplete := true }

/-! ### The queue as a list -/

section Owner

variable {owner : ℕ → Owner} {e x : ℕ} {o o' : Owner}

/-- What an address is used for after the one at `e` has got the use `o`. -/
theorem update_owner :
  Function.update owner e o x = o' ↔ x = e ∧ o = o' ∨ x ≠ e ∧ owner x = o'
  := by
  rw [Function.update_apply]
  split_ifs with hx
  · simp [hx]
  · simp [hx]

/-- A use other than the new one was there before. -/
theorem of_update_owner (h : Function.update owner e o x = o') (hne : o ≠ o') :
  x ≠ e ∧ owner x = o'
  := by
  rcases update_owner.mp h with ⟨-, h⟩ | h
  · exact absurd h hne
  · exact h

/-- A use that the address `e` does not have stays. -/
theorem update_owner_of_ne (h : owner x = o') (he : owner e ≠ o') :
  Function.update owner e o x = o'
  := by
  rw [Function.update_of_ne, h]
  rintro rfl
  exact he h

end Owner

/-- The state represents the list `l` of the nodes in the queue. -/
structure Represents (s : Submit) (l : List ℕ) : Prop where
  chain : Chain s.next s.qHead l
  tail : s.qTail = l.getLast?
  length : s.qLen.toNat = l.length
  bound : s.qLen ≤ s.qMaxLen
  queued : ∀ {e}, e ∈ l ↔ s.owner e = .queued
  enqueuing : ∀ {e}, s.owner e = .enqueuing → s.next e = none
  history : s.enqueued = s.fetched ++ l.map s.item
  taken : ∀ {e n}, s.owner e = .fetched n →
    s.fetched[n]? = some (s.item e) ∧ n ∉ s.returned.map Prod.fst
  takenOnce : ∀ {e e' n}, s.owner e = .fetched n → s.owner e' = .fetched n → e = e'
  returned : ∀ r ∈ s.returned, ∃ item old, s.fetched[r.1]? = some item ∧
    r.2 = fetchCommand old item
  returnedOnce : (s.returned.map Prod.fst).Nodup
  running : s.exited ≠ some .nullHead

variable {s s' : Submit} {l : List ℕ} {e n : ℕ} {a : SubmitStep}

namespace Represents

theorem init {qMaxLen : UInt32} {heap : ℕ → Node} :
  Represents (Submit.init qMaxLen heap) []
  := by
  constructor
  case chain => rfl
  case bound => exact UInt32.zero_le
  all_goals simp [Submit.init]

/-- A call of `fetch` takes the first node of the list, and when the list is empty it waits or
returns the null pointer. -/
theorem fetchResult_eq (h : Represents s l) :
  s.fetchResult =
    match l with
    | [] => if s.workComplete then .null else .wait
    | e :: _ => .node e
  := by
  cases l with
  | nil =>
      have hlen : s.qLen = 0 := UInt32.toNat_inj.mp h.length
      rw [fetchResult, if_pos hlen]
  | cons e rest =>
      have hlen : s.qLen ≠ 0 := by
        intro hzero
        have hlength := h.length
        rw [hzero] at hlength
        contradiction
      obtain ⟨hhead, -⟩ := h.chain
      rw [fetchResult, if_neg hlen, hhead]

/-- The pointer to the last node is null when the queue is empty. -/
theorem tail_eq_none (h : Represents s l) :
  s.qTail = none ↔ s.qLen = 0
  := by
  rw [h.tail, List.getLast?_eq_none_iff, ← List.length_eq_zero_iff, ← h.length,
    ← UInt32.toNat_inj]
  rfl

/-- The allocation of a node leaves the list as it is. -/
theorem allocate {item : QItem} (h : Represents s l) (hfree : s.owner e = .free) :
  Represents (s.allocate item e) l
  := by
  have hqueued : s.owner e ≠ .queued := by
    rw [hfree]
    decide
  have hmem : ∀ x ∈ l, x ≠ e := by
    rintro x hx rfl
    exact hqueued (h.queued.mp hx)
  have hheap : ∀ {x}, x ≠ e → (s.allocate item e).heap x = s.heap x := fun hx =>
    Function.update_of_ne hx _ _
  have hfetched : ∀ {x n}, (s.allocate item e).owner x = .fetched n →
      x ≠ e ∧ s.owner x = .fetched n := fun hx =>
    of_update_owner hx nofun
  constructor
  case chain =>
    apply h.chain.congr
    intro x hx
    rw [next, next, hheap (hmem x hx)]
  case tail => exact h.tail
  case length => exact h.length
  case bound => exact h.bound
  case queued =>
    intro x
    constructor
    · intro hx
      exact update_owner_of_ne (h.queued.mp hx) hqueued
    · intro hx
      exact h.queued.mpr (of_update_owner hx nofun).2
  case enqueuing =>
    intro x hx
    rcases update_owner.mp hx with ⟨rfl, -⟩ | ⟨hxe, hx⟩
    · rw [next, Submit.allocate]
      dsimp only
      rw [Function.update_self]
    · rw [next, hheap hxe]
      exact h.enqueuing hx
  case history =>
    have hitems : l.map (s.allocate item e).item = l.map s.item := by
      apply List.map_congr_left
      intro x hx
      rw [Submit.item, Submit.item, hheap (hmem x hx)]
    rw [hitems]
    exact h.history
  case taken =>
    intro x n hx
    obtain ⟨hxe, hx⟩ := hfetched hx
    rw [Submit.item, hheap hxe]
    exact h.taken hx
  case takenOnce =>
    intro x x' n hx hx'
    exact h.takenOnce (hfetched hx).2 (hfetched hx').2
  case returned => exact h.returned
  case returnedOnce => exact h.returnedOnce
  case running => exact h.running

/-- The chain of pointers after a node has been appended. -/
theorem chain_appendNode (h : Represents s l) (he : s.owner e = .enqueuing) :
  Chain (s.appendNode e).next (s.appendNode e).qHead (l ++ [e]) ∧
    ∀ x, x ∉ l → (s.appendNode e).next x = s.next x
  := by
  have hnull := h.enqueuing he
  have hmem : e ∉ l := by
    rw [h.queued, he]
    decide
  rcases List.eq_nil_or_concat l with rfl | ⟨front, t, rfl⟩
  · have htail : s.qTail = none := h.tail
    have hnext : (s.appendNode e).next = s.next := by
      funext x
      rw [next, appendNode, htail]
      rfl
    have hhead : (s.appendNode e).qHead = some e := by
      rw [appendNode, htail]
    rw [hnext, hhead]
    exact ⟨⟨rfl, hnull⟩, fun x _ => rfl⟩
  · rw [List.concat_eq_append] at h hmem ⊢
    have htail : s.qTail = some t := by
      rw [h.tail, List.getLast?_concat]
    have hnext : ∀ x, (s.appendNode e).next x = if x = t then some e else s.next x := by
      intro x
      rw [next, appendNode, htail]
      dsimp only
      rw [Function.update_apply]
      split_ifs <;> rfl
    have hhead : (s.appendNode e).qHead = s.qHead := by
      rw [appendNode, htail]
    have ht : t ∉ front := by
      have hnodup := h.chain.nodup
      rw [List.nodup_append] at hnodup
      intro hmem
      exact hnodup.2.2 t hmem t (List.mem_singleton_self t) rfl
    constructor
    · rw [hhead, List.append_assoc]
      apply h.chain.concat
      · intro x hx
        rw [hnext, if_neg]
        rintro rfl
        exact ht hx
      · rw [hnext, if_pos rfl]
      · rw [hnext, if_neg, hnull]
        rintro rfl
        exact hmem (List.mem_append_right _ (List.mem_singleton_self _))
    · intro x hx
      rw [hnext, if_neg]
      rintro rfl
      exact hx (List.mem_append_right _ (List.mem_singleton_self _))

/-- Appending a node changes no tile. -/
theorem item_appendNode :
  (s.appendNode e).item = s.item
  := by
  funext x
  rw [Submit.item, Submit.item, Submit.appendNode]
  cases s.qTail with
  | none => rfl
  | some t =>
      dsimp only
      rw [Function.update_apply]
      split_ifs with hx
      · rw [hx]
      · rfl

/-- An appended node is put behind the list. -/
theorem appendNode (h : Represents s l) (he : s.owner e = .enqueuing)
    (hfull : s.qLen ≠ s.qMaxLen) :
  Represents (s.appendNode e) (l ++ [e])
  := by
  obtain ⟨hchain, hnext⟩ := h.chain_appendNode he
  have hitem : (s.appendNode e).item = s.item := item_appendNode
  have hlt : s.qLen.toNat < s.qMaxLen.toNat := by
    apply UInt32.lt_iff_toNat_lt.mp
    exact UInt32.lt_of_le_of_ne h.bound hfull
  have hlen : (s.qLen + 1).toNat = s.qLen.toNat + 1 := by
    rw [UInt32.toNat_add]
    apply Nat.mod_eq_of_lt
    exact lt_of_le_of_lt hlt s.qMaxLen.toNat_lt
  have hfetched : ∀ {x n}, (s.appendNode e).owner x = .fetched n →
      s.owner x = .fetched n := fun hx =>
    (of_update_owner hx nofun).2
  constructor
  case chain => exact hchain
  case tail => exact List.getLast?_concat.symm
  case length =>
    rw [List.length_append, ← h.length]
    exact hlen
  case bound =>
    apply UInt32.le_iff_toNat_le.mpr
    exact hlen.trans_le hlt
  case queued =>
    intro x
    rw [List.mem_append, List.mem_singleton, h.queued]
    constructor
    · rintro (hx | rfl)
      · apply update_owner_of_ne hx
        rw [he]
        decide
      · exact Function.update_self _ _ _
    · intro hx
      rcases update_owner.mp hx with ⟨hx, -⟩ | ⟨-, hx⟩
      · exact Or.inr hx
      · exact Or.inl hx
  case enqueuing =>
    intro x hx
    obtain ⟨-, hx⟩ := of_update_owner hx nofun
    rw [hnext x, h.enqueuing hx]
    rw [h.queued, hx]
    decide
  case history =>
    rw [hitem, List.map_append, ← List.append_assoc]
    exact congrArg (· ++ [s.item e]) h.history
  case taken =>
    intro x n hx
    rw [hitem]
    exact h.taken (hfetched hx)
  case takenOnce =>
    intro x x' n hx hx'
    exact h.takenOnce (hfetched hx) (hfetched hx')
  case returned => exact h.returned
  case returnedOnce => exact h.returnedOnce
  case running => exact h.running

theorem toNat_qLen_sub_one (h : Represents s (e :: l)) :
  (s.qLen - 1).toNat = l.length
  := by
  have hle : (1 : UInt32) ≤ s.qLen := by
    apply UInt32.le_iff_toNat_le.mpr
    rw [h.length]
    exact Nat.le_add_left 1 l.length
  rw [UInt32.toNat_sub_of_le _ _ hle, h.length]
  rfl

/-- The tiles that are in the hands of a call of `fetch` have been taken. -/
theorem lt_of_fetched (h : Represents s l) (he : s.owner e = .fetched n) :
  n < s.fetched.length
  := by
  obtain ⟨hitem, -⟩ := h.taken he
  obtain ⟨hlt, -⟩ := List.getElem?_eq_some_iff.mp hitem
  exact hlt

/-- The tiles whose commands have been returned have been taken. -/
theorem lt_of_returned {r : ℕ × Protocol} (h : Represents s l) (hr : r ∈ s.returned) :
  r.1 < s.fetched.length
  := by
  obtain ⟨item, old, hitem, -⟩ := h.returned r hr
  obtain ⟨hlt, -⟩ := List.getElem?_eq_some_iff.mp hitem
  exact hlt

/-- The node that a call of `fetch` takes is removed from the front of the list. -/
theorem takeNode (h : Represents s (e :: l)) :
  Represents (s.takeNode e) l
  := by
  obtain ⟨-, hchain⟩ := h.chain
  obtain ⟨he, -⟩ := List.nodup_cons.mp h.chain.nodup
  have hlen := h.toNat_qLen_sub_one
  have hzero : s.qLen - 1 = 0 ↔ l = [] := by
    rw [← UInt32.toNat_inj, hlen]
    exact List.length_eq_zero_iff
  have hfetched : ∀ {x n}, (s.takeNode e).owner x = .fetched n →
      x = e ∧ n = s.fetched.length ∨ s.owner x = .fetched n ∧ n < s.fetched.length := by
    intro x n hx
    rcases update_owner.mp hx with ⟨hx, hn⟩ | ⟨-, hx⟩
    · exact Or.inl ⟨hx, (Owner.fetched.inj hn).symm⟩
    · exact Or.inr ⟨hx, h.lt_of_fetched hx⟩
  constructor
  case chain =>
    rw [Submit.takeNode]
    dsimp only
    split_ifs with hl
    · rw [hzero.mp hl]
      rfl
    · exact hchain
  case tail =>
    rw [Submit.takeNode]
    dsimp only
    split_ifs with hl
    · rw [hzero.mp hl]
      rfl
    · rw [h.tail, List.getLast?_cons_of_ne_nil]
      exact fun hnil => hl (hzero.mpr hnil)
  case length => exact hlen
  case bound =>
    apply UInt32.le_iff_toNat_le.mpr
    have hle := UInt32.le_iff_toNat_le.mp h.bound
    rw [h.length] at hle
    exact hlen.trans_le ((Nat.le_succ _).trans hle)
  case queued =>
    intro x
    constructor
    · intro hx
      apply update_owner.mpr
      right
      constructor
      · rintro rfl
        exact he hx
      · exact h.queued.mp (List.mem_cons_of_mem e hx)
    · intro hx
      obtain ⟨hxe, hx⟩ := of_update_owner hx nofun
      exact List.mem_of_ne_of_mem hxe (h.queued.mpr hx)
  case enqueuing =>
    intro x hx
    exact h.enqueuing (of_update_owner hx nofun).2
  case history =>
    rw [Submit.takeNode]
    dsimp only
    rw [h.history, List.append_assoc]
    rfl
  case taken =>
    intro x n hx
    rcases hfetched hx with ⟨rfl, rfl⟩ | ⟨hx, hlt⟩
    · constructor
      · exact List.getElem?_concat_length
      · intro hmem
        obtain ⟨r, hr, hn⟩ := List.mem_map.mp hmem
        exact (h.lt_of_returned hr).ne hn
    · obtain ⟨hitem, hmem⟩ := h.taken hx
      use (List.getElem?_append_left hlt).trans hitem
      exact hmem
  case takenOnce =>
    intro x x' n hx hx'
    rcases hfetched hx with ⟨rfl, rfl⟩ | ⟨hx, hlt⟩
    · rcases hfetched hx' with ⟨rfl, -⟩ | ⟨-, hlt⟩
      · rfl
      · exact absurd hlt (lt_irrefl _)
    · rcases hfetched hx' with ⟨-, rfl⟩ | ⟨hx', -⟩
      · exact absurd hlt (lt_irrefl _)
      · exact h.takenOnce hx hx'
  case returned =>
    intro r hr
    have hlt := h.lt_of_returned hr
    obtain ⟨item, old, hitem, hr⟩ := h.returned r hr
    use item, old, (List.getElem?_append_left hlt).trans hitem
  case returnedOnce => exact h.returnedOnce
  case running => exact h.running

/-- The return of a command leaves the list as it is. -/
theorem returnCommand {old : Protocol} (h : Represents s l) (he : s.owner e = .fetched n) :
  Represents (s.returnCommand e n old) l
  := by
  obtain ⟨hitem, hmem⟩ := h.taken he
  have hmap : (s.returnCommand e n old).returned.map Prod.fst =
      s.returned.map Prod.fst ++ [n] := List.map_append
  constructor
  case chain => exact h.chain
  case tail => exact h.tail
  case length => exact h.length
  case bound => exact h.bound
  case queued =>
    intro x
    rw [h.queued]
    constructor
    · intro hx
      apply update_owner_of_ne hx
      rw [he]
      exact nofun
    · intro hx
      exact (of_update_owner hx nofun).2
  case enqueuing =>
    intro x hx
    exact h.enqueuing (of_update_owner hx nofun).2
  case history => exact h.history
  case taken =>
    intro x k hx
    obtain ⟨hxe, howner⟩ := of_update_owner hx nofun
    obtain ⟨hxitem, hxmem⟩ := h.taken howner
    use hxitem
    rw [hmap, List.mem_append, List.mem_singleton]
    rintro (hk | rfl)
    · exact hxmem hk
    · exact hxe (h.takenOnce howner he)
  case takenOnce =>
    intro x x' k hx hx'
    exact h.takenOnce (of_update_owner hx nofun).2 (of_update_owner hx' nofun).2
  case returned =>
    intro r hr
    rcases List.mem_append.mp hr with hr | hr
    · exact h.returned r hr
    · rw [List.mem_singleton.mp hr]
      exact ⟨s.item e, old, hitem, rfl⟩
  case returnedOnce =>
    rw [hmap, ← List.concat_eq_append]
    exact h.returnedOnce.concat hmem
  case running => exact h.running

/-- After every step the queue is a list again. -/
theorem step (h : Represents s l) (hstep : s.step a = some s') :
  ∃ l', Represents s' l'
  := by
  unfold Submit.step at hstep
  split at hstep
  · contradiction
  cases a with
  | malloc item address =>
      cases address with
      | none =>
          obtain rfl := Option.some.inj hstep
          exact ⟨l, { h with running := nofun }⟩
      | some e =>
          dsimp only at hstep
          split_ifs at hstep with hfree
          obtain rfl := Option.some.inj hstep
          exact ⟨l, h.allocate hfree⟩
  | append e =>
      dsimp only at hstep
      split_ifs at hstep with happend
      obtain rfl := Option.some.inj hstep
      exact ⟨l ++ [e], h.appendNode happend.1 happend.2⟩
  | fetch =>
      dsimp only at hstep
      rw [h.fetchResult_eq] at hstep
      cases l with
      | nil =>
          dsimp only at hstep
          split_ifs at hstep with hcomplete
          obtain rfl := Option.some.inj hstep
          exact ⟨[], h⟩
      | cons e l =>
          obtain rfl := Option.some.inj hstep
          exact ⟨l, h.takeNode⟩
  | returns e old =>
      dsimp only at hstep
      split at hstep
      · rename_i n he
        obtain rfl := Option.some.inj hstep
        exact ⟨l, h.returnCommand he⟩
      · contradiction
  | finishWorkers =>
      obtain rfl := Option.some.inj hstep
      exact ⟨l, { h with }⟩

end Represents

/-- In every run the queue is a list. -/
theorem exists_represents {qMaxLen : UInt32} {heap : ℕ → Node}
    (h : Reach step anyStep (init qMaxLen heap) s) :
  ∃ l, Represents s l
  := by
  apply h.invariant (I := fun s => ∃ l, Represents s l)
  · exact ⟨[], Represents.init⟩
  · intro s a s' hs _ hstep
    obtain ⟨l, hl⟩ := hs
    exact hl.step hstep

/-- In every run the tiles have been taken in the order in which they have been appended, and
those that have not been taken yet are in the queue: the queue is the chain from `qHead`, its
length is `qLen`, which is at most `qMaxLen`, and `qTail` is its last node.  Every command that
has been returned is the one for a tile that has been taken, and no tile has two commands.  The
program never ends because `qHead` is null in a queue that is not empty, and `fetch` returns the
null pointer when the work is complete and every tile that has been appended has been taken. -/
theorem bounded_fifo {qMaxLen : UInt32} {heap : ℕ → Node}
    (h : Reach step anyStep (init qMaxLen heap) s) :
  s.fetched <+: s.enqueued ∧
    (∃ l, Chain s.next s.qHead l ∧ s.qLen.toNat = l.length ∧ s.qTail = l.getLast? ∧
      s.enqueued = s.fetched ++ l.map s.item) ∧
    s.qLen ≤ s.qMaxLen ∧
    (s.qTail = none ↔ s.qLen = 0) ∧
    (∀ r ∈ s.returned, ∃ item old, s.fetched[r.1]? = some item ∧ r.2 = fetchCommand old item) ∧
    (s.returned.map Prod.fst).Nodup ∧
    s.exited ≠ some .nullHead ∧
    s.fetchResult ≠ .exit ∧
    (s.fetchResult = .null → s.workComplete = true ∧ s.fetched = s.enqueued)
  := by
  obtain ⟨l, hl⟩ := exists_represents h
  have hresult := hl.fetchResult_eq
  use ⟨l.map s.item, hl.history.symm⟩, ⟨l, hl.chain, hl.length, hl.tail, hl.history⟩, hl.bound
  use hl.tail_eq_none, hl.returned, hl.returnedOnce, hl.running
  cases l with
  | nil =>
      rw [hresult]
      dsimp only
      split_ifs with hcomplete
      · use nofun
        intro _
        use hcomplete
        rw [hl.history, List.map_nil, List.append_nil]
      · exact ⟨nofun, nofun⟩
  | cons e l =>
      rw [hresult]
      exact ⟨nofun, nofun⟩

/-- A tile with the given coordinate. -/
def sampleTile (x : Int32) : QItem := ⟨[], x, 0, 5⟩

/-- Memory for a command. -/
def sampleMemory : Protocol where
  ver := 0
  cmd := .cmdIgnore
  x := 0
  y := 0
  z := 0
  xmlname := .replicate _ 0
  mimetype := .replicate _ 0
  options := .replicate _ 0

/-- Two tiles go through a queue with one place.  The second one is appended when the first one
has been taken, and it is the first to be returned. -/
def sampleSteps : List SubmitStep :=
  [.malloc (sampleTile 1) (some 7), .malloc (sampleTile 2) (some 3), .append 7, .fetch, .append 3,
    .fetch, .returns 3 sampleMemory, .finishWorkers, .returns 7 sampleMemory, .fetch]

/-- The queue after these steps, which is empty and complete. -/
theorem bounded_fifo_sample :
  ∃ s, run step (fun _ _ => true) (init 1 fun _ => ⟨sampleTile 0, none⟩) sampleSteps = some s ∧
    s.returned.map (fun r => (r.1, r.2.x)) = [(1, 2), (0, 1)] ∧ s.fetched.map QItem.x = [1, 2] ∧
    s.fetchResult = .null ∧ s.fetched = s.enqueued
  := by
  have hrun : (run step (fun _ _ => true) (init 1 fun _ => ⟨sampleTile 0, none⟩)
      sampleSteps).map (fun s => (s.returned.map (fun r => (r.1, r.2.x)),
        s.fetched.map QItem.x, s.fetchResult)) = some ([(1, 2), (0, 1)], [1, 2], .null) := by
    decide +kernel
  obtain ⟨s, hs, hmap⟩ := Option.map_eq_some_iff.mp hrun
  obtain ⟨hreturned, hmap⟩ := Prod.mk.inj hmap
  obtain ⟨hfetched, hnull⟩ := Prod.mk.inj hmap
  have hfifo := bounded_fifo (reach_of_run hs fun _ _ _ => trivial)
  obtain ⟨-, -, -, -, -, -, -, -, hcomplete⟩ := hfifo
  exact ⟨s, hs, hreturned, hfetched, hnull, (hcomplete hnull).2⟩

end Submit

end SubmitQueue
