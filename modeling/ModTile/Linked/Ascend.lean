import ModTile.Linked.Chain

/-!
# Ascents that stop at a node that has been seen

In a forest the pointer `link` leads from a node to its parent, and to null from a root.  An ascent
goes along the chain from a node to its root, adds the nodes to a list, and stops at the first one
that is in the list already.  When the list is closed under `link`, nothing is lost: the ancestors
of that node are in the list too, and the list is closed again.  So several ascents, one after the
other, list the nodes of all their chains, each of them once.
-/

namespace Linked

variable {α : Type*} {link : α → Option α} {o : Option α} {a : α} {l seen : List α}
  {ls : List (List α)}

/-- Apart from the node `o`, the parents of the nodes of the list are in the list. -/
def ClosedUpTo (link : α → Option α) (o : Option α) (seen : List α) : Prop :=
  ∀ a ∈ seen, ∀ b, link a = some b → b ∈ seen ∨ o = some b

/-- The parents of the nodes of the list are in the list. -/
def Closed (link : α → Option α) (seen : List α) : Prop := ClosedUpTo link none seen

theorem Closed.parent_mem (h : Closed link seen) (ha : a ∈ seen) {b : α} (hb : link a = some b) :
  b ∈ seen
  := by
  rcases h a ha b hb with hb | hb
  · exact hb
  · contradiction

theorem Closed.closedUpTo (h : Closed link seen) :
  ClosedUpTo link o seen
  := by
  intro a ha b hb
  left
  apply h.parent_mem ha hb

theorem ClosedUpTo.closed (h : ClosedUpTo link (some a) seen) (ha : a ∈ seen) :
  Closed link seen
  := by
  intro x hx b hb
  left
  rcases h x hx b hb with hb | hb
  · exact hb
  · rw [← Option.some.inj hb]
    exact ha

/-- The ascent goes on from `a` to its parent. -/
theorem ClosedUpTo.concat (h : ClosedUpTo link (some a) seen) :
  ClosedUpTo link (link a) (seen ++ [a])
  := by
  intro x hx b hb
  rcases List.mem_append.mp hx with hx | hx
  · left
    rcases h x hx b hb with hb | hb
    · exact List.mem_append_left _ hb
    · rw [Option.some.inj hb]
      exact List.mem_append_right _ (List.mem_singleton_self b)
  · right
    rw [← List.mem_singleton.mp hx, hb]

/-- A closed list contains the ancestors of its nodes. -/
theorem Closed.mem_of_chain (h : Closed link seen) (hc : Chain link (some a) l) (ha : a ∈ seen) :
  ∀ b ∈ l, b ∈ seen
  := by
  induction l generalizing a with
  | nil => simp
  | cons x l ih =>
      obtain ⟨hax, hc⟩ := hc
      obtain rfl := Option.some.inj hax
      intro b hb
      rcases List.mem_cons.mp hb with rfl | hb
      · exact ha
      · cases hlink : link a with
        | none =>
            rw [hlink] at hc
            cases l with
            | nil => contradiction
            | cons y l => nomatch hc.1
        | some p =>
            rw [hlink] at hc
            apply ih hc (h.parent_mem ha hlink) b hb

variable [DecidableEq α]

/-- The list after an ascent along the chain `l`. -/
def ascend (seen : List α) : List α → List α
  | [] => seen
  | a :: l => if a ∈ seen then seen else ascend (seen ++ [a]) l

/-- The list after ascents along the chains `ls`. -/
def ascents (seen : List α) (ls : List (List α)) : List α := ls.foldl ascend seen

/-- At the end of the ascent the list is closed. -/
theorem ClosedUpTo.ascend (h : ClosedUpTo link o seen) (hc : Chain link o l) :
  Closed link (ascend seen l)
  := by
  induction l generalizing o seen with
  | nil =>
      obtain rfl : o = none := hc
      exact h
  | cons a l ih =>
      obtain ⟨rfl, hc⟩ := hc
      rw [Linked.ascend]
      split_ifs with ha
      · exact h.closed ha
      · exact ih h.concat hc

/-- The ascent adds the nodes of the chain and no others, although it may stop early. -/
theorem ClosedUpTo.mem_ascend (h : ClosedUpTo link o seen) (hc : Chain link o l) {x : α} :
  x ∈ Linked.ascend seen l ↔ x ∈ seen ∨ x ∈ l
  := by
  induction l generalizing o seen with
  | nil => simp [Linked.ascend]
  | cons a l ih =>
      obtain ⟨rfl, hrest⟩ := hc
      rw [Linked.ascend]
      split_ifs with ha
      · have hc : Chain link (some a) (a :: l) := ⟨rfl, hrest⟩
        have hmem := (h.closed ha).mem_of_chain hc ha
        constructor
        · exact Or.inl
        · rintro (hx | hx)
          · exact hx
          · exact hmem x hx
      · rw [ih h.concat hrest, List.mem_append, List.mem_singleton, List.mem_cons, or_assoc]

/-- The ascent adds no node twice. -/
theorem nodup_ascend (h : seen.Nodup) :
  (ascend seen l).Nodup
  := by
  induction l generalizing seen with
  | nil => exact h
  | cons a l ih =>
      rw [ascend]
      split_ifs with ha
      · exact h
      · apply ih
        rw [← List.concat_eq_append]
        exact h.concat ha

/-- Ascents along several chains list the nodes of all of them. -/
theorem Closed.mem_ascents (h : Closed link seen) (hc : ∀ l ∈ ls, ∃ o, Chain link o l) {x : α} :
  x ∈ ascents seen ls ↔ x ∈ seen ∨ ∃ l ∈ ls, x ∈ l
  := by
  induction ls generalizing seen with
  | nil => simp [ascents]
  | cons l ls ih =>
      obtain ⟨o, hl⟩ := hc l List.mem_cons_self
      have hup : ClosedUpTo link o seen := h.closedUpTo
      have hrest := ih (hup.ascend hl) fun l hl => hc l (List.mem_cons_of_mem _ hl)
      rw [ascents, List.foldl_cons, ← ascents, hrest, hup.mem_ascend hl, or_assoc,
        List.exists_mem_cons_iff]

/-- Ascents along several chains list no node twice. -/
theorem nodup_ascents (h : seen.Nodup) :
  (ascents seen ls).Nodup
  := by
  induction ls generalizing seen with
  | nil => exact h
  | cons l ls ih => exact ih (nodup_ascend h)

end Linked
