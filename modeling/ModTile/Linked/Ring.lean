import Mathlib.Data.List.Nodup
import Mathlib.Logic.Function.Basic

/-!
# Circular doubly linked lists

A heap of nodes with a forward pointer `next` and a backward pointer `prev` holds the
circular list with head `h` and nodes `l` when following `next` from `h` visits `l` in
order and comes back to `h`, and `prev` undoes each of these links.  `Segment` is one
stretch of such a list, from a node to a node.  The three operations of an intrusive list
are unlinking a node, linking a node in after the head, and linking one in before it.
Each of them is two or four pointer writes, written here as updates of `next` and `prev`.
`Rings` is a family of circular lists that share no node, on which an operation changes one
list and leaves the others.
-/

namespace Linked

variable {α : Type*}

/-- Following `next` from `a` visits the nodes `l` and then `b`, and `prev` undoes every
one of these links. -/
def Segment (next prev : α → α) : α → List α → α → Prop
  | a, [], b => next a = b ∧ prev b = a
  | a, c :: l, b => next a = c ∧ prev c = a ∧ Segment next prev c l b

/-- The circular list with head `h` and nodes `l`. -/
structure Ring (next prev : α → α) (h : α) (l : List α) : Prop where
  /-- No node occurs twice, and the head is not one of the nodes. -/
  nodup : (h :: l).Nodup
  /-- The links lead from the head through the nodes back to the head. -/
  links : Segment next prev h l h

variable {next prev next' prev' : α → α} {a b h p : α} {l l₁ l₂ : List α}

/-- A segment depends on the forward pointers of its start and its nodes, and on the
backward pointers of its nodes and its end. -/
theorem Segment.congr (hs : Segment next prev a l b)
    (hnext : ∀ x ∈ a :: l, next' x = next x) (hprev : ∀ x ∈ l ++ [b], prev' x = prev x) :
  Segment next' prev' a l b
  := by
  induction l generalizing a with
  | nil =>
      obtain ⟨h₁, h₂⟩ := hs
      constructor
      · rw [hnext a List.mem_cons_self, h₁]
      · rw [hprev b (by simp), h₂]
  | cons c l ih =>
      obtain ⟨h₁, h₂, h₃⟩ := hs
      use (hnext a List.mem_cons_self).trans h₁, (hprev c (by simp)).trans h₂
      apply ih h₃
      · intro x hx
        apply hnext x (List.mem_cons_of_mem a hx)
      · intro x hx
        apply hprev x
        rw [List.cons_append]
        apply List.mem_cons_of_mem c hx

/-- A segment is cut at any of its nodes. -/
theorem segment_append :
  Segment next prev a (l₁ ++ p :: l₂) b ↔ Segment next prev a l₁ p ∧ Segment next prev p l₂ b
  := by
  induction l₁ generalizing a with
  | nil => simp only [List.nil_append, Segment, and_assoc]
  | cons c l₁ ih => simp only [List.cons_append, Segment, ih, and_assoc]

/-- The nodes of a segment are determined by the forward pointers, its start and its end. -/
theorem Segment.eq_of_next {l' : List α} (hs : Segment next prev a l b)
    (hs' : Segment next prev' a l' b) (hb : b ∉ l) (hb' : b ∉ l') :
  l = l'
  := by
  induction l generalizing a l' with
  | nil =>
      cases l' with
      | nil => rfl
      | cons c l' =>
          exfalso
          apply hb'
          rw [← hs.1, hs'.1]
          apply List.mem_cons_self
  | cons c l ih =>
      obtain ⟨rfl, -, hs⟩ := hs
      rw [List.mem_cons, not_or] at hb
      cases l' with
      | nil => exact absurd hs'.1.symm hb.1
      | cons c' l' =>
          obtain ⟨rfl, -, hs'⟩ := hs'
          rw [List.mem_cons, not_or] at hb'
          rw [ih hs hs' hb.2 hb'.2]

/-- The backward pointer of the end of a segment leads to its start or to one of its nodes. -/
theorem Segment.prev_mem (hs : Segment next prev a l b) :
  prev b ∈ a :: l
  := by
  induction l generalizing a with
  | nil => simp [hs.2]
  | cons c l ih => apply List.mem_cons_of_mem a (ih hs.2.2)

/-- The forward pointer of the start of a segment leads to one of its nodes or to its end. -/
theorem Segment.next_mem (hs : Segment next prev a l b) :
  next a ∈ l ++ [b]
  := by
  cases l with
  | nil => simp [hs.1]
  | cons c l => simp [hs.1]

/-- A ring depends on the pointers of its head and its nodes only. -/
theorem Ring.congr (hr : Ring next prev h l) (hnext : ∀ x ∈ h :: l, next' x = next x)
    (hprev : ∀ x ∈ h :: l, prev' x = prev x) :
  Ring next' prev' h l
  := by
  use hr.nodup
  apply hr.links.congr hnext
  intro x hx
  apply hprev x
  simp only [List.mem_append, List.mem_singleton] at hx
  rcases hx with hx | rfl
  · apply List.mem_cons_of_mem h hx
  · apply List.mem_cons_self

/-- The nodes of a ring are determined by the forward pointers and the head. -/
theorem Ring.eq_of_next {l' : List α} (hr : Ring next prev h l) (hr' : Ring next prev' h l') :
  l = l'
  := hr.links.eq_of_next hr'.links (List.nodup_cons.mp hr.nodup).1
    (List.nodup_cons.mp hr'.nodup).1

/-- The empty ring is a head that points to itself. -/
theorem ring_nil (hnext : next h = h) (hprev : prev h = h) :
  Ring next prev h []
  := ⟨List.nodup_singleton h, hnext, hprev⟩

/-- In a ring with a first node, the head points to it. -/
theorem Ring.next_head (hr : Ring next prev h (p :: l)) :
  next h = p
  := hr.links.1

/-- The node being unlinked has its neighbours among the head and the other nodes. -/
theorem Ring.neighbours (hr : Ring next prev h (l₁ ++ p :: l₂)) :
  prev p ∈ h :: (l₁ ++ l₂) ∧ next p ∈ h :: (l₁ ++ l₂)
  := by
  obtain ⟨h₁, h₂⟩ := segment_append.mp hr.links
  have hprev := h₁.prev_mem
  have hnext := h₂.next_mem
  simp only [List.mem_cons, List.mem_append, List.not_mem_nil, or_false] at hprev hnext ⊢
  tauto

/-- A segment read backwards. -/
theorem Segment.reverse (hs : Segment next prev a l b) :
  Segment prev next b l.reverse a
  := by
  induction l generalizing a with
  | nil => exact ⟨hs.2, hs.1⟩
  | cons c l ih =>
      obtain ⟨h₁, h₂, h₃⟩ := hs
      rw [List.reverse_cons]
      apply segment_append.mpr
      exact ⟨ih h₃, h₂, h₁⟩

/-- A ring read backwards. -/
theorem Ring.reverse (hr : Ring next prev h l) :
  Ring prev next h l.reverse
  := by
  constructor
  · have nodup := hr.nodup
    simpa only [List.nodup_cons, List.mem_reverse, List.nodup_reverse] using nodup
  · apply hr.links.reverse

section Update

variable [DecidableEq α]

/-- Unlinking a node closes the segment over it. -/
theorem Segment.unlink (h₁ : Segment next prev a l₁ p) (h₂ : Segment next prev p l₂ b)
    (nodup : (a :: (l₁ ++ p :: l₂)).Nodup) (hb : b ∉ l₁ ++ p :: l₂) :
  Segment (Function.update next (prev p) (next p)) (Function.update prev (next p) (prev p))
    a (l₁ ++ l₂) b
  := by
  induction l₁ generalizing a with
  | nil =>
      obtain ⟨-, rfl⟩ := h₁
      cases l₂ with
      | nil =>
          obtain ⟨rfl, -⟩ := h₂
          exact ⟨Function.update_self .., Function.update_self ..⟩
      | cons c l₂ =>
          obtain ⟨rfl, -, h₂⟩ := h₂
          use Function.update_self .., Function.update_self ..
          simp only [List.nil_append, List.nodup_cons, List.mem_cons, not_or] at nodup hb
          apply h₂.congr
          · intro x hx
            apply Function.update_of_ne
            rintro rfl
            rcases List.mem_cons.mp hx with hx | hx
            · apply nodup.1.2.1 hx
            · apply nodup.1.2.2 hx
          · intro x hx
            apply Function.update_of_ne
            rintro rfl
            rcases List.mem_append.mp hx with hx | hx
            · apply nodup.2.2.1 hx
            · apply hb.2.1 (List.mem_singleton.mp hx).symm
  | cons d l₁ ih =>
      obtain ⟨rfl, hd, h₁⟩ := h₁
      have hprev := h₁.prev_mem
      have hnext := h₂.next_mem
      simp only [List.cons_append, List.nodup_cons, List.mem_cons, List.mem_append, not_or,
        List.not_mem_nil, or_false] at nodup hb hprev hnext
      refine ⟨?_, ?_, ih h₁ ?_ ?_⟩
      · apply Function.update_of_ne
        intro he
        rw [← he] at hprev
        rcases hprev with hp | hp
        · apply nodup.1.1 hp
        · apply nodup.1.2.1 hp
      · rw [Function.update_of_ne _, hd]
        intro he
        rw [← he] at hnext
        rcases hnext with hn | hn
        · apply nodup.2.1.2.2 hn
        · apply hb.1 hn.symm
      · simpa only [List.nodup_cons, List.mem_append, List.mem_cons, not_or] using nodup.2
      · simpa only [List.mem_append, List.mem_cons, not_or] using hb.2

/-- Unlinking a node takes it out of the ring. -/
theorem Ring.unlink (hr : Ring next prev h (l₁ ++ p :: l₂)) :
  Ring (Function.update next (prev p) (next p)) (Function.update prev (next p) (prev p))
    h (l₁ ++ l₂)
  := by
  obtain ⟨h₁, h₂⟩ := segment_append.mp hr.links
  constructor
  · apply List.Nodup.sublist _ hr.nodup
    simp
  · apply h₁.unlink h₂ hr.nodup (List.nodup_cons.mp hr.nodup).1

/-- The four writes that link `p` in after the head put it first. -/
theorem Ring.insert_first (hr : Ring next prev h l) (hp : p ∉ h :: l) :
  Ring (Function.update (Function.update next p (next h)) h p)
    (Function.update (Function.update prev p h) (next h) p) h (p :: l)
  := by
  have nodup := hr.nodup
  have hnext := hr.links.next_mem
  simp only [List.mem_cons, not_or, List.nodup_cons, List.mem_append, List.not_mem_nil,
    or_false] at hp nodup hnext
  have hpn : p ≠ next h := by
    rintro he
    rw [← he] at hnext
    tauto
  constructor
  · simp only [List.nodup_cons, List.mem_cons, not_or]
    exact ⟨⟨fun e => hp.1 e.symm, nodup.1⟩, hp.2, nodup.2⟩
  · refine ⟨Function.update_self .., ?_, ?_⟩
    · rw [Function.update_of_ne hpn, Function.update_self]
    · cases l with
      | nil =>
          obtain ⟨hn, -⟩ := hr.links
          constructor
          · rw [Function.update_of_ne hp.1, Function.update_self, hn]
          · rw [hn, Function.update_self]
      | cons b l =>
          obtain ⟨hn, -, hs⟩ := hr.links
          simp only [List.mem_cons, not_or, List.nodup_cons] at hp nodup
          rw [hn]
          refine ⟨?_, Function.update_self .., ?_⟩
          · rw [Function.update_of_ne hp.1, Function.update_self]
          · apply hs.congr
            · intro x hx
              rw [Function.update_of_ne, Function.update_of_ne]
              · rintro rfl
                rcases List.mem_cons.mp hx with hx | hx
                · apply hp.2.1 hx
                · apply hp.2.2 hx
              · rintro rfl
                rcases List.mem_cons.mp hx with hx | hx
                · apply nodup.1.1 hx
                · apply nodup.1.2 hx
            · intro x hx
              rw [Function.update_of_ne, Function.update_of_ne]
              · rintro rfl
                rcases List.mem_append.mp hx with hx | hx
                · apply hp.2.2 hx
                · apply hp.1 (List.mem_singleton.mp hx)
              · rintro rfl
                rcases List.mem_append.mp hx with hx | hx
                · apply nodup.2.1 hx
                · apply nodup.1.1 (List.mem_singleton.mp hx).symm

/-- The four writes that link `p` in before the head put it last. -/
theorem Ring.insert_last (hr : Ring next prev h l) (hp : p ∉ h :: l) :
  Ring (Function.update (Function.update next p h) (prev h) p)
    (Function.update (Function.update prev p (prev h)) h p) h (l ++ [p])
  := by
  have key := (hr.reverse.insert_first (p := p) (by simpa using hp)).reverse
  rw [List.reverse_cons, List.reverse_reverse] at key
  apply key

end Update

/-- A family of circular lists with the given heads and nodes, no two of which share a node. -/
structure Rings {ι : Type*} (next prev : α → α) (head : ι → α) (lists : ι → List α) : Prop where
  /-- Each of the lists is a circular list. -/
  ring : ∀ i, Ring next prev (head i) (lists i)
  /-- A node of one list is not a node of another. -/
  disjoint : ∀ {i j x}, i ≠ j → x ∈ head i :: lists i → x ∉ head j :: lists j

namespace Rings

variable {ι : Type*} {head : ι → α} {lists : ι → List α} {i j : ι}

/-- A family of rings depends on the pointers of the heads and nodes only. -/
theorem congr (hr : Rings next prev head lists)
    (hnext : ∀ i, ∀ x ∈ head i :: lists i, next' x = next x)
    (hprev : ∀ i, ∀ x ∈ head i :: lists i, prev' x = prev x) :
  Rings next' prev' head lists
  := by
  constructor
  · intro i
    apply (hr.ring i).congr (hnext i) (hprev i)
  · intro i j x
    apply hr.disjoint

/-- A node is on one list at most. -/
theorem unique (hr : Rings next prev head lists) (hi : p ∈ lists i) (hj : p ∈ lists j) :
  i = j
  := by
  by_contra hne
  apply hr.disjoint hne (List.mem_cons_of_mem _ hi) (List.mem_cons_of_mem _ hj)

variable [DecidableEq ι]

/-- Unlinking a node takes it out of its list. -/
theorem unlink [DecidableEq α] (hr : Rings next prev head lists) (hp : p ∈ lists i) :
  Rings (Function.update next (prev p) (next p)) (Function.update prev (next p) (prev p)) head
    (Function.update lists i ((lists i).erase p))
  := by
  obtain ⟨l₁, l₂, hl⟩ := List.append_of_mem hp
  have hring := hr.ring i
  rw [hl] at hring
  have hp₁ : p ∉ l₁ := by
    intro h
    have nodup := (List.nodup_cons.mp hring.nodup).2
    apply (List.disjoint_of_nodup_append nodup) h List.mem_cons_self
  have herase : (lists i).erase p = l₁ ++ l₂ := by
    rw [hl, List.erase_append_right _ hp₁, List.erase_cons_head]
  obtain ⟨hprev, hnext⟩ := hring.neighbours
  have hsub : ∀ x ∈ head i :: (l₁ ++ l₂), x ∈ head i :: lists i := by
    intro x hx
    simp only [hl, List.mem_cons, List.mem_append] at hx ⊢
    tauto
  constructor
  · intro j
    by_cases hj : j = i
    · subst hj
      rw [Function.update_self, herase]
      apply hring.unlink
    · rw [Function.update_of_ne hj]
      apply (hr.ring j).congr
      · intro x hx
        apply Function.update_of_ne
        rintro rfl
        apply hr.disjoint hj hx (hsub _ hprev)
      · intro x hx
        apply Function.update_of_ne
        rintro rfl
        apply hr.disjoint hj hx (hsub _ hnext)
  · have hmem : ∀ {k x}, x ∈ head k :: Function.update lists i ((lists i).erase p) k →
        x ∈ head k :: lists k := by
      intro k x hx
      by_cases hk : k = i
      · subst hk
        rw [Function.update_self, herase] at hx
        apply hsub x hx
      · rwa [Function.update_of_ne hk] at hx
    intro j k x hne hx hx'
    apply hr.disjoint hne (hmem hx) (hmem hx')

/-- A family of rings in which the pointers of one ring and of a new node of it have changed. -/
theorem insert (hr : Rings next prev head lists) (hp : ∀ j, p ∉ head j :: lists j)
    (hring : Ring next' prev' (head i) l) (hl : ∀ x ∈ l, x = p ∨ x ∈ lists i)
    (hnext : ∀ x, x ∉ head i :: lists i → x ≠ p → next' x = next x)
    (hprev : ∀ x, x ∉ head i :: lists i → x ≠ p → prev' x = prev x) :
  Rings next' prev' head (Function.update lists i l)
  := by
  have hmem : ∀ {k x}, x ∈ head k :: Function.update lists i l k →
      x ∈ head k :: lists k ∨ (k = i ∧ x = p) := by
    intro k x hx
    by_cases hk : k = i
    · subst hk
      rw [Function.update_self] at hx
      rcases List.mem_cons.mp hx with rfl | hx
      · exact Or.inl List.mem_cons_self
      · rcases hl x hx with rfl | hx
        · exact Or.inr ⟨rfl, rfl⟩
        · exact Or.inl (List.mem_cons_of_mem _ hx)
    · rw [Function.update_of_ne hk] at hx
      exact Or.inl hx
  constructor
  · intro j
    by_cases hj : j = i
    · subst hj
      rwa [Function.update_self]
    · rw [Function.update_of_ne hj]
      have hne : ∀ x ∈ head j :: lists j, x ≠ p := by
        rintro x hx rfl
        apply hp j hx
      apply (hr.ring j).congr
      · intro x hx
        apply hnext x (hr.disjoint hj hx) (hne x hx)
      · intro x hx
        apply hprev x (hr.disjoint hj hx) (hne x hx)
  · intro j k x hne hx hx'
    rcases hmem hx with hj | ⟨rfl, rfl⟩
    · rcases hmem hx' with hk | ⟨rfl, rfl⟩
      · apply hr.disjoint hne hj hk
      · apply hp j hj
    · rcases hmem hx' with hk | ⟨rfl, -⟩
      · apply hp k hk
      · apply hne rfl

/-- Linking a new node in after the head of one list puts it first there. -/
theorem insert_first [DecidableEq α] (hr : Rings next prev head lists)
    (hp : ∀ j, p ∉ head j :: lists j) :
  Rings (Function.update (Function.update next p (next (head i))) (head i) p)
    (Function.update (Function.update prev p (head i)) (next (head i)) p) head
    (Function.update lists i (p :: lists i))
  := by
  apply hr.insert hp ((hr.ring i).insert_first (hp i))
  · intro x hx
    apply List.mem_cons.mp hx
  · intro x hx hxp
    rw [Function.update_of_ne, Function.update_of_ne hxp]
    rintro rfl
    apply hx List.mem_cons_self
  · intro x hx hxp
    rw [Function.update_of_ne, Function.update_of_ne hxp]
    rintro rfl
    have h := (hr.ring i).links.next_mem
    simp only [List.mem_append, List.mem_cons, List.not_mem_nil, or_false, not_or] at h hx
    tauto

/-- Linking a new node in before the head of one list puts it last there. -/
theorem insert_last [DecidableEq α] (hr : Rings next prev head lists)
    (hp : ∀ j, p ∉ head j :: lists j) :
  Rings (Function.update (Function.update next p (head i)) (prev (head i)) p)
    (Function.update (Function.update prev p (prev (head i))) (head i) p) head
    (Function.update lists i (lists i ++ [p]))
  := by
  apply hr.insert hp ((hr.ring i).insert_last (hp i))
  · intro x hx
    rcases List.mem_append.mp hx with hx | hx
    · exact Or.inr hx
    · exact Or.inl (List.mem_singleton.mp hx)
  · intro x hx hxp
    rw [Function.update_of_ne, Function.update_of_ne hxp]
    rintro rfl
    apply hx (hr.ring i).links.prev_mem
  · intro x hx hxp
    rw [Function.update_of_ne, Function.update_of_ne hxp]
    rintro rfl
    apply hx List.mem_cons_self

end Rings

end Linked
