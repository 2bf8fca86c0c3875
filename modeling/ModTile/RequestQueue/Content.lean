import ModTile.RequestQueue.Runs

/-!
# The content of items

Most writes of the queue are to the links between items.  The content of an item is what it
says about its request, and only two operations change it: adding an item to the dirty list
and clearing a file descriptor both set the descriptor to `FD_INVALID`.
-/

open Linked

/-- The request of an item, the metatile it is for, and the descriptor of the client. -/
structure Content where
  req : Protocol
  mx : Int32
  my : Int32
  fd : ℤ

/-- The content of an item. -/
def Item.content (item : Item) : Content where
  req := item.req
  mx := item.mx
  my := item.my
  fd := item.fd

namespace Item

variable {item item' : Item}

theorem fd_congr (h : item.content = item'.content) :
  item.fd = item'.fd
  := congrArg Content.fd h

theorem req_congr (h : item.content = item'.content) :
  item.req = item'.req
  := congrArg Content.req h

end Item

namespace RequestQueue

variable {q q' : RequestQueue} {v v' : View} {list : ListHead} {p t a x : Ptr} {n : ℕ}
  {r : Added}

theorem content_enqueue :
  ((q.enqueue list p).heap a).content = (q.heap a).content
  := by
  rw [heap_enqueue]
  rfl

theorem duplicates_enqueue :
  ((q.enqueue list p).heap a).duplicates = (q.heap a).duplicates
  := by rw [heap_enqueue]

theorem content_attach :
  ((q.attach t p).heap a).content = (q.heap a).content
  := by
  rw [heap_attach]
  rfl

theorem content_fetchFrom :
  ((q.fetchFrom list).2.heap a).content = (q.heap a).content
  := by
  simp [fetchFrom, linkRender, unlink, Item.content]

theorem content_removeRequest {renderTime : ℤ}
    (hq : q.requestQueueRemoveRequest p renderTime = some q') :
  (q'.heap a).content = (q.heap a).content
  := by
  rw [(removeRequest_eq hq).1, Heap.unlink_apply]
  rfl

theorem duplicates_removeRequest {renderTime : ℤ}
    (hq : q.requestQueueRemoveRequest p renderTime = some q') :
  (q'.heap a).duplicates = (q.heap a).duplicates
  := by rw [(removeRequest_eq hq).1, Heap.unlink_apply]

namespace AddOutcome

/-- Adding an item keeps the content of all other items. -/
theorem content_of_ne (ho : AddOutcome q v n r v') (hx : x ≠ .item n) :
  (r.queue.heap x).content = (q.heap x).content
  := by
  cases ho with
  | duplicate t list ht hkey htakes => apply content_attach
  | refused t list ht hkey htakes => rfl
  | queued list hlist hdirty hroom => apply content_enqueue
  | dirty hfull hroom =>
      dsimp only
      rw [content_enqueue]
      simp [Item.content, hx]
  | dropped hfull hdirty => rfl

/-- Adding an item keeps its content, except that its descriptor can be cleared. -/
theorem content_self (ho : AddOutcome q v n r v') :
  (r.queue.heap (.item n)).content = (q.heap (.item n)).content ∨
    (r.queue.heap (.item n)).content = { (q.heap (.item n)).content with fd := fdInvalid }
  := by
  cases ho with
  | duplicate t list ht hkey htakes => exact Or.inl content_attach
  | refused t list ht hkey htakes => exact Or.inl rfl
  | queued list hlist hdirty hroom => exact Or.inl content_enqueue
  | dirty hfull hroom =>
      right
      dsimp only
      rw [content_enqueue]
      simp [Item.content]
  | dropped hfull hdirty => exact Or.inl rfl

/-- Adding an item keeps the duplicates of the items that are not held. -/
theorem duplicates_of_not_held (ho : AddOutcome q v n r v') (hx : ¬ v.Held x) (hn : x ≠ .item n) :
  (r.queue.heap x).duplicates = (q.heap x).duplicates
  := by
  cases ho with
  | duplicate t list ht hkey htakes =>
      have hxt : x ≠ t := by
        rintro rfl
        apply hx (Or.inl ⟨list, ht⟩)
      dsimp only
      rw [heap_attach]
      simp [hxt, hn]
  | refused t list ht hkey htakes => rfl
  | queued list hlist hdirty hroom => apply duplicates_enqueue
  | dirty hfull hroom =>
      dsimp only
      rw [duplicates_enqueue]
      simp
  | dropped hfull hdirty => rfl

/-- The caller learns that the item has been accepted, in which case its content is kept; or that
the request is not done, in which case the item has been freed or lost its descriptor. -/
theorem reply (ho : AddOutcome q v n r v') :
  (r.status = .cmdIgnore ∧ r.freed = false ∧
      (r.queue.heap (.item n)).content = (q.heap (.item n)).content) ∨
    (r.status = .cmdNotDone ∧ r.freed = false ∧
      (r.queue.heap (.item n)).content = { (q.heap (.item n)).content with fd := fdInvalid }) ∨
    (r.status = .cmdNotDone ∧ r.freed = true)
  := by
  cases ho with
  | duplicate t list ht hkey htakes =>
      left
      exact ⟨rfl, rfl, content_attach⟩
  | refused t list ht hkey htakes =>
      right
      right
      exact ⟨rfl, rfl⟩
  | queued list hlist hdirty hroom =>
      left
      exact ⟨rfl, rfl, content_enqueue⟩
  | dirty hfull hroom =>
      right
      left
      use rfl, rfl
      dsimp only
      rw [content_enqueue]
      simp [Item.content]
  | dropped hfull hdirty =>
      right
      right
      exact ⟨rfl, rfl⟩

end AddOutcome

end RequestQueue
