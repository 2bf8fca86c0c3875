import Mathlib.Data.Nat.Notation
import Mathlib.Logic.Relation

/-!
# Runs of a partial step function

A system is given by a function `step` from a state and an action to the next state,
`none` when the action is not enabled.  `Reach step ok s t` says that `t` is reached
from `s` by enabled actions, each of which satisfies `ok` in the state in which it is
taken.  `Reach.invariant` is the induction over runs, and `run` evaluates a run.
-/

namespace Transition

variable {σ α : Type*}

/-- `Reach step ok s t`: some sequence of enabled actions leads from `s` to `t`, and every
one of them satisfies `ok` in the state in which it is taken. -/
inductive Reach (step : σ → α → Option σ) (ok : σ → α → Prop) (s : σ) : σ → Prop where
  | refl : Reach step ok s s
  | tail {t u : σ} (a : α) : Reach step ok s t → ok t a → step t a = some u → Reach step ok s u

/-- The condition that every action meets. -/
def anyStep : σ → α → Prop := fun _ _ => True

variable {step : σ → α → Option σ} {ok : σ → α → Prop} {s t : σ}

/-- A property of the initial state that every step keeps holds in every reached state. -/
theorem Reach.invariant {I : σ → Prop} (h : Reach step ok s t) (init : I s)
    (keep : ∀ t a u, I t → ok t a → step t a = some u → I u) :
  I t
  := by
  induction h with
  | refl => apply init
  | tail a _ hok hstep ih => apply keep _ _ _ ih hok hstep

theorem Reach.trans {u : σ} (h : Reach step ok s t) (h' : Reach step ok t u) :
  Reach step ok s u
  := by
  induction h' with
  | refl => exact h
  | tail a _ hok hstep ih => exact Reach.tail a ih hok hstep

/-- A run is a run of another step function that takes the same steps. -/
theorem Reach.of_step {step' : σ → α → Option σ} {ok' : σ → α → Prop} (h : Reach step ok s t)
    (keep : ∀ t a u, ok t a → step t a = some u → ok' t a ∧ step' t a = some u) :
  Reach step' ok' s t
  := by
  induction h with
  | refl => apply Reach.refl
  | tail a _ hok hstep ih =>
      obtain ⟨hok', hstep'⟩ := keep _ _ _ hok hstep
      apply Reach.tail a ih hok' hstep'

/-- A part of the state that only changes by steps of another system makes a run of that system. -/
theorem Reach.project {σ' α' : Type*} {step' : σ' → α' → Option σ'} {ok' : σ' → α' → Prop}
    {f : σ → σ'} (h : Reach step ok s t)
    (keep : ∀ t a u, ok t a → step t a = some u →
      f u = f t ∨ ∃ b, ok' (f t) b ∧ step' (f t) b = some (f u)) :
  Reach step' ok' (f s) (f t)
  := by
  induction h with
  | refl => apply Reach.refl
  | tail a _ hok hstep ih =>
      rcases keep _ _ _ hok hstep with hsame | ⟨b, hok', hb⟩
      · rw [hsame]
        apply ih
      · apply Reach.tail b ih hok' hb

/-- The state that a list of actions leads to, if all of them are enabled and satisfy
`ok` in turn. -/
def run (step : σ → α → Option σ) (ok : σ → α → Bool) : σ → List α → Option σ
  | s, [] => some s
  | s, a :: as => if ok s a then (step s a).bind fun t => run step ok t as else none

/-- A state to which a list of actions leads is reached. -/
theorem reach_of_run {okb : σ → α → Bool} {as : List α} (h : run step okb s as = some t)
    (sound : ∀ s a, okb s a = true → ok s a) :
  Reach step ok s t
  := by
  suffices key : ∀ (as : List α) {r : σ}, Reach step ok s r → run step okb r as = some t →
      Reach step ok s t from key as Reach.refl h
  intro as
  induction as with
  | nil =>
      intro r hr h
      simp only [run, Option.some.injEq] at h
      subst h
      apply hr
  | cons a as ih =>
      intro r hr h
      simp only [run] at h
      split at h
      · rename_i hok
        obtain ⟨u, hu, h⟩ := Option.bind_eq_some_iff.mp h
        apply ih (Reach.tail a hr (sound _ _ hok) hu) h
      · simp at h

/-- Steps that are not disturbed decrease a potential, and the others increase it by at most `c`.
The potential bounds the number of steps of a run, apart from those that are disturbed. -/
theorem length_add_potential_le {okb : σ → α → Bool} {disturbed : α → Bool} {I : σ → Prop}
    {f : σ → ℕ} {c : ℕ} {as : List α} (h : run step okb s as = some t) (init : I s)
    (keep : ∀ s a t, I s → step s a = some t → I t)
    (decrease : ∀ s a t, I s → step s a = some t → disturbed a = false → f t < f s)
    (increase : ∀ s a t, I s → step s a = some t → disturbed a = true → f t ≤ f s + c) :
  as.length + f t ≤ f s + (c + 1) * as.countP disturbed
  := by
  induction as generalizing s with
  | nil =>
      obtain rfl := Option.some.inj h
      simp
  | cons a as ih =>
      simp only [run] at h
      split at h
      · obtain ⟨r, hr, h⟩ := Option.bind_eq_some_iff.mp h
        have hle := ih h (keep s a r init hr)
        rw [List.length_cons]
        cases hdisturbed : disturbed a with
        | false =>
            have hlt := decrease s a r init hr hdisturbed
            rw [List.countP_cons_of_neg (Bool.not_eq_true _ ▸ hdisturbed)]
            omega
        | true =>
            have hgrow := increase s a r init hr hdisturbed
            rw [List.countP_cons_of_pos hdisturbed, Nat.mul_add_one]
            omega
      · cases h

end Transition
