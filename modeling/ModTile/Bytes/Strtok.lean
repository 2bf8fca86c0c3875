import Mathlib.Data.List.TakeWhile

/-!
# Tokens

The tokens of a text are its longest parts without separators.  `strtok` finds the first of them
and the place behind it from which the next call goes on.
-/

namespace Bytes

/-- The tokens of a text. -/
def tokensOn (separates : UInt8 → Bool) (s : List UInt8) : List (List UInt8) :=
  (s.splitOnP separates).filter (· ≠ [])

/-- The first token, and the text from which the next call goes on. -/
def strtok (separates : UInt8 → Bool) (s : List UInt8) : Option (List UInt8 × List UInt8) :=
  match s.dropWhile separates with
  | [] => none
  | c :: s =>
      some (c :: s.takeWhile (!separates ·), (s.dropWhile (!separates ·)).tail)

variable {separates : UInt8 → Bool} {s s' token last : List UInt8} {c : UInt8}

/-- A separator belongs to no token, and ends the one before it. -/
theorem tokensOn_append_cons (hc : separates c = true) :
  tokensOn separates (s ++ c :: s') = tokensOn separates s ++ tokensOn separates s'
  := by
  rw [tokensOn, List.splitOnP_append_cons s s' hc, List.filter_append]
  rfl

/-- A text without separators is a token. -/
theorem tokensOn_of_forall (hne : s ≠ []) (h : ∀ a ∈ s, separates a = false) :
  tokensOn separates s = [s]
  := by
  rw [tokensOn, List.splitOnP_eq_singleton (fun a ha => by simp [h a ha])]
  simp [hne]

/-- Separators in front belong to no token. -/
theorem tokensOn_dropWhile :
  tokensOn separates (s.dropWhile separates) = tokensOn separates s
  := by
  induction s with
  | nil => rfl
  | cons c s ih =>
      cases hc : separates c with
      | false => rw [List.dropWhile_cons_of_neg (by simp [hc])]
      | true =>
          rw [List.dropWhile_cons_of_pos hc, ih]
          exact (tokensOn_append_cons (s := []) hc).symm

/-- A token, followed by the end of the text or by a separator. -/
theorem tokensOn_takeWhile (hc : separates c = false) :
  tokensOn separates (c :: s) = (c :: s.takeWhile (!separates ·)) ::
    tokensOn separates (s.dropWhile (!separates ·)).tail
  := by
  have htoken : tokensOn separates (c :: s.takeWhile (!separates ·)) =
      [c :: s.takeWhile (!separates ·)] := by
    apply tokensOn_of_forall (List.cons_ne_nil _ _)
    intro a ha
    rcases List.mem_cons.mp ha with rfl | ha
    · apply hc
    · simpa using List.mem_takeWhile_imp ha
  cases hrest : s.dropWhile (!separates ·) with
  | nil =>
      have hs : s.takeWhile (!separates ·) = s := by
        have happend := List.takeWhile_append_dropWhile (p := (!separates ·)) (l := s)
        rwa [hrest, List.append_nil] at happend
      rw [hs] at htoken ⊢
      rw [htoken]
      rfl
  | cons d rest =>
      have hd : separates d = true := by
        have hhead := List.head_dropWhile_not (fun a => !separates a) (l := s) (by simp [hrest])
        simpa [hrest] using hhead
      have hs : s = s.takeWhile (!separates ·) ++ d :: rest := by
        rw [← hrest, List.takeWhile_append_dropWhile]
      have htokens : tokensOn separates (c :: s.takeWhile (!separates ·) ++ d :: rest) =
          tokensOn separates (c :: s.takeWhile (!separates ·)) ++ tokensOn separates rest :=
        tokensOn_append_cons hd
      rw [List.cons_append, ← hs, htoken] at htokens
      apply htokens

/-- There is no first token when there are no tokens. -/
theorem tokensOn_of_strtok_eq_none (h : strtok separates s = none) :
  tokensOn separates s = []
  := by
  rw [strtok] at h
  split at h
  · rename_i hdrop
    rw [← tokensOn_dropWhile, hdrop]
    rfl
  · contradiction

/-- The tokens are the first one and those behind it. -/
theorem tokensOn_of_strtok_eq_some (h : strtok separates s = some (token, last)) :
  tokensOn separates s = token :: tokensOn separates last
  := by
  rw [strtok] at h
  split at h
  · contradiction
  · rename_i c rest hdrop
    obtain ⟨rfl, rfl⟩ := Prod.mk.inj (Option.some.inj h)
    rw [← tokensOn_dropWhile, hdrop]
    apply tokensOn_takeWhile
    have hhead := List.head_dropWhile_not separates (l := s) (by simp [hdrop])
    simpa [hdrop] using hhead

/-- A call leaves a shorter text. -/
theorem length_lt_of_strtok (h : strtok separates s = some (token, last)) :
  last.length < s.length
  := by
  rw [strtok] at h
  split at h
  · contradiction
  · rename_i c rest hdrop
    obtain ⟨rfl, rfl⟩ := Prod.mk.inj (Option.some.inj h)
    calc (rest.dropWhile (!separates ·)).tail.length
      _ ≤ (rest.dropWhile (!separates ·)).length := by simp
      _ ≤ rest.length := (List.dropWhile_suffix _).length_le
      _ < (c :: rest).length := by simp
      _ ≤ s.length := by
        rw [← hdrop]
        apply (List.dropWhile_suffix _).length_le

end Bytes
