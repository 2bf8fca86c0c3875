import ModTile.Loop

/-!
# Data behind a lock

Threads change a value in critical sections.  A critical section is a list of statements, which
the thread that holds the lock executes one after another.  Other threads can run between two of
them, but they cannot enter a critical section.  A statement may fail, after which the lock is
never given back.

`Serial` says that nothing of this order can be seen: the value is the one after the statements
of the critical sections in the order in which these have been entered, apart from the statements
that the thread with the lock has not executed yet.
-/

/-- A value behind a lock.  The holder has the statements of its critical section that it has not
executed yet, and `entered` are the statements of all critical sections so far. -/
structure Guarded (τ κ ε σ : Type*) where
  value : σ
  holder : Option (τ × List κ)
  failure : Option ε
  entered : List κ

namespace Guarded

variable {τ κ ε σ : Type*}

/-- A value that no thread has changed yet. -/
def init (value : σ) : Guarded τ κ ε σ where
  value := value
  holder := none
  failure := none
  entered := []

/-- The statements of the critical section that have not been executed yet. -/
def pending (g : Guarded τ κ ε σ) : List κ :=
  match g.holder with
  | none => []
  | some (_, rest) => rest

/-- A thread enters a critical section, if no thread is in one. -/
def lock (g : Guarded τ κ ε σ) (t : τ) (body : List κ) : Option (Guarded τ κ ε σ) :=
  match g.holder with
  | none => some { g with holder := some (t, body), entered := g.entered ++ body }
  | some _ => none

section Steps

variable [DecidableEq τ]

/-- The thread with the lock executes the next statement. -/
def next (exec : σ → κ → Except ε σ) (g : Guarded τ κ ε σ) (t : τ) : Option (Guarded τ κ ε σ) :=
  match g.holder with
  | some (t', k :: rest) =>
      if t' = t then
        match exec g.value k with
        | .ok value => some { g with value := value, holder := some (t, rest) }
        | .error e => some { g with failure := some e }
      else none
  | _ => none

/-- The thread with the lock gives it back after its last statement. -/
def unlock (g : Guarded τ κ ε σ) (t : τ) : Option (Guarded τ κ ε σ) :=
  match g.holder with
  | some (t', []) => if t' = t then some { g with holder := none } else none
  | _ => none

end Steps

variable {g g' : Guarded τ κ ε σ} {t : τ} {body : List κ}

theorem entered_lock (h : g.lock t body = some g') :
  g'.entered = g.entered ++ body
  := by
  unfold lock at h
  split at h
  · obtain rfl := Option.some.inj h
    rfl
  · cases h

section Steps

variable [DecidableEq τ] {exec : σ → κ → Except ε σ}

theorem entered_next (h : g.next exec t = some g') :
  g'.entered = g.entered
  := by
  unfold next at h
  split at h
  · split_ifs at h
    split at h
    · obtain rfl := Option.some.inj h
      rfl
    · obtain rfl := Option.some.inj h
      rfl
  · cases h

theorem entered_unlock (h : g.unlock t = some g') :
  g'.entered = g.entered
  := by
  unfold unlock at h
  split at h
  · split_ifs at h
    obtain rfl := Option.some.inj h
    rfl
  · cases h

end Steps

/-- The lock is given to a thread when no thread has it. -/
theorem lock_eq_some :
  g.lock t body = some g' ↔
    g.holder = none ∧ g' = { g with holder := some (t, body), entered := g.entered ++ body }
  := by
  unfold lock
  split
  · rename_i hholder
    simp [hholder, eq_comm]
  · rename_i hholder
    simp [hholder]

section Steps

variable [DecidableEq τ] {exec : σ → κ → Except ε σ}

/-- The thread with the lock executes its next statement, which may fail. -/
theorem next_eq_some (h : g.next exec t = some g') :
  ∃ k rest, g.holder = some (t, k :: rest) ∧
    (g'.holder = some (t, rest) ∧ g'.failure = g.failure ∨
      g'.holder = g.holder ∧ g'.failure.isSome)
  := by
  unfold next at h
  split at h
  · rename_i t' k rest hholder
    split_ifs at h with ht
    subst ht
    refine ⟨k, rest, hholder, ?_⟩
    split at h
    · obtain rfl := Option.some.inj h
      exact Or.inl ⟨rfl, rfl⟩
    · obtain rfl := Option.some.inj h
      exact Or.inr ⟨rfl, rfl⟩
  · cases h

/-- A thread with a statement left can go on. -/
theorem exists_next {k : κ} {rest : List κ} (exec : σ → κ → Except ε σ)
    (h : g.holder = some (t, k :: rest)) :
  ∃ g', g.next exec t = some g'
  := by
  simp only [next, h, if_true]
  split <;> exact ⟨_, rfl⟩

/-- The lock is given back by the thread that has it. -/
theorem unlock_eq_some :
  g.unlock t = some g' ↔ g.holder = some (t, []) ∧ g' = { g with holder := none }
  := by
  unfold unlock
  split
  · rename_i t' hholder
    rw [hholder]
    split_ifs with ht
    · simp [ht, eq_comm]
    · simp [ht]
  · rename_i hholder
    simp only [reduceCtorEq, false_iff, not_and]
    intro hnil
    exact (hholder t hnil).elim

end Steps

/-- The value is the one after the statements of the critical sections, in their order, apart from
those that have not been executed yet.  A failure is that of the next statement. -/
structure Serial (exec : σ → κ → Except ε σ) (start : σ) (g : Guarded τ κ ε σ) : Prop where
  value : ∃ done, g.entered = done ++ g.pending ∧ done.foldlM exec start = .ok g.value
  failure : ∀ e, g.failure = some e → ∃ k rest, g.pending = k :: rest ∧ exec g.value k = .error e

namespace Serial

variable {exec : σ → κ → Except ε σ} {start : σ}

theorem init :
  Serial exec start (Guarded.init start : Guarded τ κ ε σ)
  := by
  constructor
  case value => exact ⟨[], rfl, rfl⟩
  case failure => exact nofun

/-- A critical section that has come to its end did not fail. -/
theorem failure_eq_none (h : Serial exec start g) (hpending : g.pending = []) :
  g.failure = none
  := by
  apply Option.eq_none_iff_forall_ne_some.mpr
  intro e he
  obtain ⟨k, rest, hk, -⟩ := h.failure e he
  rw [hpending] at hk
  cases hk

theorem lock (h : Serial exec start g) (hlock : g.lock t body = some g') :
  Serial exec start g'
  := by
  unfold Guarded.lock at hlock
  split at hlock
  · rename_i hholder
    obtain rfl := Option.some.inj hlock
    have hpending : g.pending = [] := by
      rw [pending, hholder]
    obtain ⟨done, hentered, hdone⟩ := h.value
    rw [hpending, List.append_nil] at hentered
    constructor
    case value =>
      use done
      constructor
      · rw [← hentered]
        rfl
      · exact hdone
    case failure =>
      intro e he
      cases (h.failure_eq_none hpending).symm.trans he
  · cases hlock

variable [DecidableEq τ]

theorem next (h : Serial exec start g) (hnext : g.next exec t = some g') :
  Serial exec start g'
  := by
  unfold Guarded.next at hnext
  split at hnext
  · rename_i t' k rest hholder
    have hpending : g.pending = k :: rest := by
      rw [pending, hholder]
    split_ifs at hnext
    split at hnext
    · rename_i value hvalue
      obtain rfl := Option.some.inj hnext
      obtain ⟨done, hentered, hdone⟩ := h.value
      constructor
      case value =>
        use done ++ [k]
        constructor
        · rw [List.append_assoc, hentered, hpending]
          rfl
        · exact (Loop.foldlM_concat hdone k).trans hvalue
      case failure =>
        intro e he
        obtain ⟨k', rest', hk, hexec⟩ := h.failure e he
        rw [hpending] at hk
        obtain ⟨rfl, -⟩ := List.cons.inj hk
        rw [hvalue] at hexec
        cases hexec
    · rename_i e he
      obtain rfl := Option.some.inj hnext
      constructor
      case value => exact h.value
      case failure =>
        intro e' he'
        obtain rfl := Option.some.inj he'
        exact ⟨k, rest, hpending, he⟩
  · cases hnext

theorem unlock (h : Serial exec start g) (hunlock : g.unlock t = some g') :
  Serial exec start g'
  := by
  unfold Guarded.unlock at hunlock
  split at hunlock
  · rename_i t' hholder
    have hpending : g.pending = [] := by
      rw [pending, hholder]
    split_ifs at hunlock
    obtain rfl := Option.some.inj hunlock
    constructor
    case value =>
      have hvalue := h.value
      rw [hpending] at hvalue
      exact hvalue
    case failure =>
      intro e he
      cases (h.failure_eq_none hpending).symm.trans he
  · cases hunlock

omit [DecidableEq τ]

/-- When no statement is left, the value is the one after all critical sections. -/
theorem foldlM_entered (h : Serial exec start g) (hpending : g.pending = []) :
  g.entered.foldlM exec start = .ok g.value
  := by
  obtain ⟨done, hentered, hdone⟩ := h.value
  rw [hentered, hpending, List.append_nil]
  exact hdone

/-- After a failure, the critical sections fail when they are executed one after another. -/
theorem foldlM_entered_of_failure {e : ε} (h : Serial exec start g) (he : g.failure = some e) :
  g.entered.foldlM exec start = .error e
  := by
  obtain ⟨done, hentered, hdone⟩ := h.value
  obtain ⟨k, rest, hpending, hexec⟩ := h.failure e he
  rw [hpending] at hentered
  exact Loop.foldlM_eq_error_iff.mpr ⟨done, k, rest, g.value, hentered, hdone, hexec⟩

end Serial

end Guarded
