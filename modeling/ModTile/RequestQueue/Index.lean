import Mathlib.Tactic.Tauto
import ModTile.RequestQueue.Basic

/-!
# The hash index

The index recognises an item by its key: the origin of the metatile, the zoom level and the
name of the map.  The bucket of an item depends on its key only.  A bucket is well formed
when an empty inline place means that there are no nodes; the entries of a well-formed
bucket are then a list, to which `insert` adds an entry at the end, from which `remove`
takes the first entry that is found, and which `lookupItemIdx` searches.
-/

/-- What the index recognises an item by. -/
structure Key where
  mx : Int32
  my : Int32
  z : Int32
  xmlname : List UInt8
  deriving DecidableEq

/-- The key of an item. -/
def Item.key (item : Item) : Key where
  mx := item.mx
  my := item.my
  z := item.req.z
  xmlname := item.req.xmlnameString

namespace ItemIdx

/-- The entries of a bucket: the inline one, if there is one, and those of the nodes. -/
def entries (bucket : ItemIdx) : List Ptr := bucket.item.toList ++ bucket.next

/-- A bucket whose inline place is empty has no nodes. -/
def WellFormed (bucket : ItemIdx) : Prop := bucket.item = none → bucket.next = []

variable {bucket : ItemIdx} {p : Ptr} {found : Ptr → Bool}

/-- An entry is added after the others. -/
theorem entries_insert (wf : bucket.WellFormed) :
  (bucket.insert p).entries = bucket.entries ++ [p]
  := by
  obtain ⟨next, item⟩ := bucket
  cases item with
  | none =>
      obtain rfl : next = [] := wf rfl
      rfl
  | some first => simp [insert, entries]

/-- A bucket with an entry added is well formed. -/
theorem WellFormed.insert :
  (bucket.insert p).WellFormed
  := by
  obtain ⟨next, item⟩ := bucket
  cases item <;> simp [ItemIdx.insert, WellFormed]

/-- The first entry that is found is removed, whether it stands inline or in a node. -/
theorem entries_remove (wf : bucket.WellFormed) :
  (bucket.remove found).entries = bucket.entries.eraseP found
  := by
  obtain ⟨next, item⟩ := bucket
  cases item with
  | none =>
      obtain rfl : next = [] := wf rfl
      rfl
  | some first =>
      simp only [remove, entries, Option.toList_some, List.cons_append, List.nil_append]
      cases hf : found first with
      | true => cases next <;> simp [hf]
      | false => simp [hf]

/-- Erasing the first entry that is found erases `p` if that is the only entry that is found. -/
theorem eraseP_eq_erase {l : List Ptr} (h : ∀ x ∈ l, found x = true ↔ p = x) :
  l.eraseP found = l.erase p
  := by
  induction l with
  | nil => rfl
  | cons a l ih =>
      by_cases ha : p = a
      · rw [List.eraseP_cons_of_pos ((h a List.mem_cons_self).mpr ha), ha, List.erase_cons_head]
      · rw [List.eraseP_cons_of_neg (fun hf => ha ((h a List.mem_cons_self).mp hf)),
          List.erase_cons_tail (by simpa using fun e => ha e.symm), ih]
        intro x hx
        apply h x (List.mem_cons_of_mem a hx)

/-- A well-formed bucket from which an entry has been removed is well formed. -/
theorem WellFormed.remove (wf : bucket.WellFormed) :
  (bucket.remove found).WellFormed
  := by
  obtain ⟨next, item⟩ := bucket
  cases item with
  | none => apply wf
  | some first =>
      simp only [ItemIdx.remove]
      split
      · cases next <;> simp [WellFormed]
      · simp [WellFormed]

end ItemIdx

namespace RequestQueue

variable {q : RequestQueue} {item test : Item} {p : Ptr}

/-- Two items are the same for the index exactly when they have the same key. -/
theorem sameItem_iff :
  sameItem item test = true ↔ item.key = test.key
  := by
  simp only [sameItem, Item.key, Bool.and_eq_true, decide_eq_true_eq, Key.mk.injEq]
  tauto

/-- The bucket of an item depends on its key only. -/
theorem calcHashKey_congr (h : item.key = test.key) :
  calcHashKey item = calcHashKey test
  := by
  simp only [Item.key, Key.mk.injEq] at h
  obtain ⟨hmx, hmy, hz, hname⟩ := h
  have hhash : xmlnameHash item = xmlnameHash test := by
    rw [xmlnameHash, xmlnameHash, Bytes.cString_take,
      Bytes.cString_take (l := test.req.xmlname.toList)]
    simp only [List.Vector.toList_length]
    rw [← Protocol.xmlnameString, ← Protocol.xmlnameString, hname]
  simp only [calcHashKey, hhash, hmx, hmy, hz]

/-- The lookup searches the entries of the bucket. -/
theorem lookupItemIdx_eq (wf : (q.itemHashidx (calcHashKey item)).WellFormed) :
  lookupItemIdx q item
    = (q.itemHashidx (calcHashKey item)).entries.find? fun test => sameItem item (q.heap test)
  := by
  simp only [lookupItemIdx, ItemIdx.entries]
  cases hb : (q.itemHashidx (calcHashKey item)).item with
  | none => simp [wf hb]
  | some first => simp

end RequestQueue
