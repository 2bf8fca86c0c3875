import Mathlib.Data.List.Basic

/-!
# Loops that may stop

A loop over a list whose body changes a state and may stop with an error is `List.foldlM` in
`Except`.  `foldlM_invariant` is the induction over the rounds of a loop that has come to its
end: the invariant speaks of the elements that have been dealt with and of the state.
`foldlM_eq_error_iff` says where a loop has stopped.  `foldlM_flatMap` is about a loop of loops,
and `foldlM_onCell` about a loop each round of which changes one cell of an array.
-/

namespace Loop

variable {α β ε : Type*} {f : β → α → Except ε β} {l : List α} {b c : β} {e : ε}

theorem foldlM_cons_eq (x : α) :
  (x :: l).foldlM f b =
    match f b x with
    | .ok b' => l.foldlM f b'
    | .error e => .error e
  := by
  rw [List.foldlM_cons]
  cases f b x with
  | ok b' => rfl
  | error e => rfl

/-- The last round of a loop. -/
theorem foldlM_concat (h : l.foldlM f b = .ok c) (x : α) :
  (l ++ [x]).foldlM f b = f c x
  := by
  rw [List.foldlM_append, h]
  change [x].foldlM f c = f c x
  rw [foldlM_cons_eq]
  cases f c x with
  | ok c' => rfl
  | error e => rfl

/-- What holds at the start and is kept by every round holds at the end. -/
theorem foldlM_invariant {P : List α → β → Prop} (h : l.foldlM f b = .ok c) (init : P [] b)
    (keep : ∀ done x b b', P done b → f b x = .ok b' → P (done ++ [x]) b') :
  P l c
  := by
  suffices key : ∀ (l done : List α) (b : β), P done b → l.foldlM f b = .ok c → P (done ++ l) c from
    key l [] b init h
  intro l
  induction l with
  | nil =>
      intro done b hb h
      obtain rfl := Except.ok.inj h
      rw [List.append_nil]
      apply hb
  | cons x l ih =>
      intro done b hb h
      rw [foldlM_cons_eq] at h
      split at h
      · rename_i b' hx
        rw [List.append_cons]
        apply ih (done ++ [x]) b' (keep _ _ _ _ hb hx) h
      · cases h

/-- A loop stops with an error in the round of an element that is met after the elements before it
have been dealt with. -/
theorem foldlM_eq_error_iff :
  l.foldlM f b = .error e ↔
    ∃ done x rest c, l = done ++ x :: rest ∧ done.foldlM f b = .ok c ∧ f c x = .error e
  := by
  induction l generalizing b with
  | nil =>
      constructor
      · intro h
        cases h
      · rintro ⟨done, x, rest, c, h, -, -⟩
        simp at h
  | cons y l ih =>
      rw [foldlM_cons_eq]
      constructor
      · intro h
        split at h
        · rename_i b' hy
          obtain ⟨done, x, rest, c, rfl, hdone, hx⟩ := ih.mp h
          refine ⟨y :: done, x, rest, c, rfl, ?_, hx⟩
          rw [foldlM_cons_eq, hy]
          apply hdone
        · rename_i e' hy
          obtain rfl := Except.error.inj h
          exact ⟨[], y, l, b, rfl, rfl, hy⟩
      · rintro ⟨done, x, rest, c, hl, hdone, hx⟩
        cases done with
        | nil =>
            obtain ⟨rfl, rfl⟩ := List.cons.inj hl
            obtain rfl := Except.ok.inj hdone
            rw [hx]
        | cons z done =>
            obtain ⟨rfl, rfl⟩ := List.cons.inj hl
            rw [foldlM_cons_eq] at hdone
            split at hdone
            · apply ih.mpr ⟨done, x, rest, c, rfl, hdone, hx⟩
            · cases hdone

/-- A loop over the lists that belong to the elements of a list is a loop of loops. -/
theorem foldlM_flatMap {γ : Type*} (g : γ → List α) (xs : List γ) :
  (xs.flatMap g).foldlM f b = xs.foldlM (fun b x => (g x).foldlM f b) b
  := by
  induction xs generalizing b with
  | nil => rfl
  | cons x xs ih =>
      rw [List.flatMap_cons, List.foldlM_append, List.foldlM_cons]
      congr 1
      funext b'
      apply ih

section Cells

variable {ι : Type*} [DecidableEq ι]

/-- The round that changes the cell of an array to which `index` leads.  It stops with the error
`stop` when there is no such cell. -/
def onCell (index : α → Option ι) (stop : α → ε) (f : β → α → Except ε β) (a : ι → β) (x : α) :
    Except ε (ι → β) :=
  match index x with
  | none => .error (stop x)
  | some i =>
      match f (a i) x with
      | .ok b => .ok (Function.update a i b)
      | .error e => .error e

variable {index : α → Option ι} {stop : α → ε} {a a' : ι → β}

/-- A loop whose rounds change single cells comes to its end when every round has a cell and the
rounds of each cell, by themselves, come to their end; these give the contents of the cell. -/
theorem foldlM_onCell :
  l.foldlM (onCell index stop f) a = .ok a' ↔
    (∀ x ∈ l, (index x).isSome) ∧
      ∀ i, (l.filter fun x => index x = some i).foldlM f (a i) = .ok (a' i)
  := by
  induction l generalizing a with
  | nil =>
      constructor
      · intro h
        obtain rfl := Except.ok.inj h
        exact ⟨nofun, fun i => rfl⟩
      · rintro ⟨-, h⟩
        apply congrArg Except.ok
        funext i
        exact Except.ok.inj (h i)
  | cons x l ih =>
      rw [foldlM_cons_eq, List.forall_mem_cons]
      cases hindex : index x with
      | none => simp [onCell, hindex]
      | some j =>
          have hself : ((x :: l).filter fun x => index x = some j) =
              x :: l.filter fun x => index x = some j := by
            apply List.filter_cons_of_pos
            simp [hindex]
          cases hx : f (a j) x with
          | error e =>
              have hcell : onCell index stop f a x = .error e := by
                simp [onCell, hindex, hx]
              rw [hcell]
              constructor
              · exact nofun
              · rintro ⟨-, h⟩
                have hj := h j
                rw [hself, foldlM_cons_eq, hx] at hj
                cases hj
          | ok b =>
              have hcell : onCell index stop f a x = .ok (Function.update a j b) := by
                simp [onCell, hindex, hx]
              have hrounds : ∀ i, ((x :: l).filter fun x => index x = some i).foldlM f (a i) =
                  (l.filter fun x => index x = some i).foldlM f (Function.update a j b i) := by
                intro i
                by_cases hi : i = j
                · rw [hi, hself, foldlM_cons_eq, hx, Function.update_self]
                · rw [List.filter_cons_of_neg, Function.update_of_ne hi]
                  simp [hindex, Ne.symm hi]
              rw [hcell]
              simp only [hrounds, Option.isSome_some, true_and]
              apply ih

end Cells

end Loop
