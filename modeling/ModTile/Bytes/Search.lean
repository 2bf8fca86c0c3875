import ModTile.Bytes.CString

/-!
# The first place of a pattern

`FirstAt pattern s before after` says that the text is `before`, the pattern and `after`, and that
the pattern is at no earlier place.  `splitFirst`, which is `strstr` with the text cut at the
place it finds, is the function for this relation.  `strrchr` finds the last place of a byte.
-/

namespace Bytes

variable {pattern s before after before' after' : List UInt8} {c : UInt8}

/-- The pattern is after `before` in the text, and at no earlier place. -/
structure FirstAt (pattern s before after : List UInt8) : Prop where
  eq : s = before ++ pattern ++ after
  first : ∀ {before' after'}, s = before' ++ pattern ++ after' → before.length ≤ before'.length

/-- The first place is one place. -/
theorem FirstAt.unique (h : FirstAt pattern s before after)
    (h' : FirstAt pattern s before' after') :
  before = before' ∧ after = after'
  := by
  have hlen : before.length = before'.length := le_antisymm (h.first h'.eq) (h'.first h.eq)
  have heq := h.eq.symm.trans h'.eq
  rw [List.append_assoc, List.append_assoc] at heq
  obtain ⟨hbefore, hrest⟩ := List.append_inj heq hlen
  exact ⟨hbefore, List.append_cancel_left hrest⟩

/-- What is said of the first place is said of this place. -/
theorem FirstAt.exists_iff (h : FirstAt pattern s before after)
    {P : List UInt8 → List UInt8 → Prop} :
  (∃ before after, FirstAt pattern s before after ∧ P before after) ↔ P before after
  := by
  constructor
  · rintro ⟨before', after', h', hp⟩
    obtain ⟨rfl, rfl⟩ := h.unique h'
    apply hp
  · intro hp
    exact ⟨before, after, h, hp⟩

/-- What `splitFirst` finds is the first place. -/
theorem firstAt_of_splitFirst (hne : pattern ≠ [])
    (h : splitFirst pattern s = some (before, after)) :
  FirstAt pattern s before after
  := by
  induction s generalizing before with
  | nil =>
      rw [splitFirst, if_neg hne] at h
      cases h
  | cons c s ih =>
      rw [splitFirst] at h
      split at h
      · rename_i hhere
        obtain ⟨rfl, rfl⟩ := Prod.mk.inj (Option.some.inj h)
        constructor
        case eq =>
          rw [List.nil_append]
          apply List.prefix_iff_eq_append.mp hhere |>.symm
        case first => simp
      · rename_i hnot
        obtain ⟨⟨before', after'⟩, h', heq⟩ := Option.map_eq_some_iff.mp h
        obtain ⟨rfl, rfl⟩ := Prod.mk.inj heq
        have hfirst := ih h'
        constructor
        case eq => rw [List.cons_append, List.cons_append, ← hfirst.eq]
        case first =>
          intro b a hb
          cases b with
          | nil =>
              exfalso
              apply hnot
              rw [hb, List.nil_append]
              apply List.prefix_append
          | cons d b =>
              rw [List.cons_append, List.cons_append] at hb
              obtain ⟨-, hb⟩ := List.cons.inj hb
              simpa using hfirst.first hb

/-- Every place of the pattern is found, or one before it. -/
theorem isSome_splitFirst (hs : s = before ++ pattern ++ after) :
  (splitFirst pattern s).isSome
  := by
  induction s generalizing before with
  | nil =>
      have hpattern : pattern = [] := by
        have hlen := congrArg List.length hs
        simp only [List.length_nil, List.length_append] at hlen
        apply List.length_eq_zero_iff.mp
        omega
      rw [splitFirst, if_pos hpattern]
      rfl
  | cons c s ih =>
      rw [splitFirst]
      split
      · rfl
      · rename_i hnot
        rw [Option.isSome_map]
        cases before with
        | nil =>
            exfalso
            apply hnot
            rw [hs, List.nil_append]
            apply List.prefix_append
        | cons d before =>
            rw [List.cons_append, List.cons_append] at hs
            apply ih (List.cons.inj hs).2

theorem splitFirst_eq_some_iff (hne : pattern ≠ []) :
  splitFirst pattern s = some (before, after) ↔ FirstAt pattern s before after
  := by
  constructor
  · apply firstAt_of_splitFirst hne
  · intro h
    obtain ⟨⟨before', after'⟩, h'⟩ := Option.isSome_iff_exists.mp (isSome_splitFirst h.eq)
    obtain ⟨rfl, rfl⟩ := h.unique (firstAt_of_splitFirst hne h')
    apply h'

theorem not_firstAt_of_splitFirst (hne : pattern ≠ []) (h : splitFirst pattern s = none) :
  ¬ FirstAt pattern s before after
  := by
  rw [← splitFirst_eq_some_iff hne, h]
  apply Option.some_ne_none _ ∘ Eq.symm

/-- A single byte is first where it is not before. -/
theorem firstAt_singleton (hc : c ∉ before) :
  FirstAt [c] (before ++ [c] ++ after) before after
  := by
  constructor
  case eq => rfl
  case first =>
    intro before' after' h
    by_contra hlt
    rw [not_le] at hlt
    rw [List.append_assoc, List.append_assoc] at h
    have hget := congrArg (·[before'.length]?) h
    simp only [List.getElem?_append_left hlt, List.getElem?_append_right le_rfl, Nat.sub_self,
      List.singleton_append, List.getElem?_cons_zero] at hget
    apply hc (List.mem_of_getElem? hget)

/-- A text in front that does not have the first byte of the pattern is skipped. -/
theorem splitFirst_append_left {l : List UInt8} (hl : c ∉ l) :
  splitFirst (c :: pattern) (l ++ s) =
    (splitFirst (c :: pattern) s).map fun (before, after) => (l ++ before, after)
  := by
  induction l with
  | nil =>
      rw [List.nil_append]
      cases splitFirst (c :: pattern) s with
      | none => rfl
      | some r => rfl
  | cons d l ih =>
      rw [List.mem_cons, not_or] at hl
      have hnot : ¬ (c :: pattern) <+: d :: (l ++ s) := by
        intro h
        apply hl.1 (List.cons_prefix_cons.mp h).1
      rw [List.cons_append, splitFirst, if_neg hnot, ih hl.2, Option.map_map]
      rfl

/-- `strrchr`: the text from the last place of a byte on. -/
def strrchr (c : UInt8) : List UInt8 → Option (List UInt8)
  | [] => none
  | d :: s =>
      match strrchr c s with
      | some t => some t
      | none => if d = c then some (d :: s) else none

theorem strrchr_eq_none_iff :
  strrchr c s = none ↔ c ∉ s
  := by
  induction s with
  | nil => simp only [strrchr, List.not_mem_nil, not_false_eq_true]
  | cons d s ih =>
      rw [strrchr, List.mem_cons, not_or, ← ih, eq_comm (a := c)]
      cases strrchr c s with
      | none => simp
      | some t => simp

/-- The text from the last place on is the end of the text that has the byte in front only. -/
theorem strrchr_eq_some_iff {t : List UInt8} (ht : c ∉ t) :
  strrchr c s = some (c :: t) ↔ c :: t <:+ s
  := by
  induction s with
  | nil => simp only [strrchr, List.suffix_nil, reduceCtorEq]
  | cons d s ih =>
      rw [strrchr, List.suffix_cons_iff]
      cases h : strrchr c s with
      | none =>
          have hnot : ¬ c :: t <:+ s := by
            intro hsuffix
            apply strrchr_eq_none_iff.mp h (hsuffix.mem List.mem_cons_self)
          rw [or_iff_left hnot]
          dsimp only
          split_ifs with hd
          · rw [hd, Option.some.injEq, eq_comm]
          · simp only [List.cons.injEq, false_iff, not_and]
            intro hc
            apply absurd hc.symm hd
      | some t' =>
          have hne : c :: t ≠ d :: s := by
            intro heq
            rw [(List.cons.inj heq).2, ← strrchr_eq_none_iff, h] at ht
            cases ht
          rw [h] at ih
          dsimp only
          rw [ih, or_iff_right hne]

end Bytes
