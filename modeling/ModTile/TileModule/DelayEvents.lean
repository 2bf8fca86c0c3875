import ModTile.TileModule.DelayPool

/-!
# What a step of the delay pool does

The steps of `delay_allowed`, with those in which a process does not get the mutex: a call that
has not had it yet is granted then, and a call that was made to wait is not.  `Change` lists what
can happen, and `next_pool` says what becomes of the table.  Every step makes at most one of the
two changes to a bucket, which are an attempt to take tokens and a new bucket, and may then fill
all buckets.
-/

namespace DelayPool

/-- What happens next: an action, or a process does not get the mutex. -/
inductive Event where
  | act (a : Action)
  | giveUp (i : ℕ)
  deriving DecidableEq

namespace State

variable (conf : Conf)

/-- The state after a process has not got the mutex. -/
def giveUp (s : State) (i : ℕ) : Option State :=
  match s.phase i with
  | .waiting call => some (s.result i call.address true)
  | .penalised call _ => some (s.result i call.address false)
  | _ => none

/-- The state after an event, if it is possible. -/
def next (s : State) : Event → Option State
  | .act a => s.step conf a
  | .giveUp i => s.giveUp i

/-- The bucket in the place of a client is its own. -/
def owns (s : State) (call : Call) : Bool :=
  (s.pool.users call.address.hashkey).ipAddr = call.address.ip

/-- The tokens that a call asks for are there. -/
def affords (s : State) (call : Call) : Bool :=
  ((s.pool.users call.address.hashkey).charge call.missing).2

/-- The table after an attempt to take tokens. -/
def charged (s : State) (call : Call) : Pool :=
  s.pool.setEntry call.address.hashkey
    ((s.pool.users call.address.hashkey).charge call.missing).1

/-- The call that attempts to take tokens in an event. -/
def attempting (s : State) : Event → Option Call
  | .act (.lock i) =>
      match s.phase i with
      | .waiting call => if s.owns call then some call else none
      | _ => none
  | .act (.endFillup i) =>
      match s.phase i with
      | .filling call j => if j + 1 < 3 then some call else none
      | _ => none
  | _ => none

/-- The call that gets a new bucket in an event. -/
def creating (s : State) : Event → Option Call
  | .act (.lock i) =>
      match s.phase i with
      | .waiting call => if s.owns call then none else some call
      | _ => none
  | _ => none

/-- The table that is filled in an event. -/
def filling (s : State) : Event → Option Pool
  | .act (.lock i) =>
      match s.phase i with
      | .waiting call =>
          if s.owns call && !s.affords call then some (s.charged call) else none
      | .penalised _ _ => some s.pool
      | _ => none
  | _ => none

end State

open State

variable {conf : Conf} {s s' : State} {ev : Event} {i j : ℕ} {call : Call}

/-- What an event does: time passes; a call is granted or refused when it is made, or waits for
the mutex; with the mutex it gets a new bucket, attempts to take tokens, or goes on with a
fill-up; after a fill-up it attempts to take tokens again or is refused; it does not get the
mutex. -/
inductive Change (conf : Conf) (s : State) : Event → State → Prop where
  | tick (d : ℕ) : Change conf s (.act (.tick d)) { s with clock := s.clock + d }
  | skip (i : ℕ) (address : Option Address) (missing : Bool) (hidle : s.phase i = .idle) :
      Change conf s (.act (.enter i address missing)) (s.result i address address.isSome)
  | wait (i : ℕ) (address : Address) (missing : Bool) (hidle : s.phase i = .idle) :
      Change conf s (.act (.enter i address missing)) (s.setPhase i (.waiting ⟨address, missing⟩))
  | create (i : ℕ) (call : Call) (hphase : s.phase i = .waiting call)
      (hother : s.owns call = false) :
      Change conf s (.act (.lock i)) (s.create conf i call)
  | first (i : ℕ) (call : Call) (hphase : s.phase i = .waiting call)
      (howns : s.owns call = true) :
      Change conf s (.act (.lock i)) (s.attempt conf i call 0)
  | refill (i : ℕ) (call : Call) (j : ℕ) (hphase : s.phase i = .penalised call j) :
      Change conf s (.act (.lock i)) (s.startFillup conf i call j)
  | again (i : ℕ) (call : Call) (j : ℕ) (hphase : s.phase i = .filling call j)
      (hj : j + 1 < 3) :
      Change conf s (.act (.endFillup i))
        ((s.setPool { s.pool with locked := false }).attempt conf i call (j + 1))
  | refuse (i : ℕ) (call : Call) (j : ℕ) (hphase : s.phase i = .filling call j)
      (hj : ¬j + 1 < 3) :
      Change conf s (.act (.endFillup i))
        (((s.setPool { s.pool with locked := false }).setMutex false).result i call.address false)
  | unlocked (i : ℕ) (call : Call) (hphase : s.phase i = .waiting call) :
      Change conf s (.giveUp i) (s.result i call.address true)
  | expelled (i : ℕ) (call : Call) (j : ℕ) (hphase : s.phase i = .penalised call j) :
      Change conf s (.giveUp i) (s.result i call.address false)

theorem change_enter {address : Option Address} {missing : Bool} (hidle : s.phase i = .idle) :
  Change conf s (.act (.enter i address missing)) (s.enter i missing address)
  := by
  cases address with
  | none => apply Change.skip i none missing hidle
  | some address =>
      rw [State.enter]
      split_ifs
      · apply Change.skip i (some address) missing hidle
      · apply Change.wait i address missing hidle

theorem change_account (hphase : s.phase i = .waiting call) :
  Change conf s (.act (.lock i)) (s.account conf i call)
  := by
  rw [State.account]
  split_ifs with howns
  · apply Change.first i call hphase
    apply decide_eq_true howns
  · apply Change.create i call hphase
    apply decide_eq_false howns

theorem change_endFillup (hphase : s.phase i = .filling call j) :
  Change conf s (.act (.endFillup i)) (s.endFillup conf i call j)
  := by
  rw [State.endFillup]
  dsimp only
  split_ifs with hj
  · apply Change.again i call j hphase hj
  · apply Change.refuse i call j hphase hj

/-- Every event is one of those in the list. -/
theorem change_of_next (h : s.next conf ev = some s') :
  Change conf s ev s'
  := by
  cases ev with
  | giveUp i =>
      rw [State.next, State.giveUp] at h
      split at h
      · rename_i call hphase
        obtain rfl := Option.some.inj h
        apply Change.unlocked i call hphase
      · rename_i call j hphase
        obtain rfl := Option.some.inj h
        apply Change.expelled i call j hphase
      · contradiction
  | act a =>
      rw [State.next] at h
      cases a with
      | tick d =>
          obtain rfl := Option.some.inj h
          apply Change.tick
      | enter i address missing =>
          rw [State.step] at h
          split_ifs at h with hidle
          obtain rfl := Option.some.inj h
          apply change_enter hidle
      | lock i =>
          rw [State.step] at h
          split_ifs at h
          split at h
          · rename_i call hphase
            obtain rfl := Option.some.inj h
            apply change_account hphase
          · rename_i call j hphase
            obtain rfl := Option.some.inj h
            apply Change.refill i call j hphase
          · contradiction
      | endFillup i =>
          rw [State.step] at h
          split at h
          · rename_i call j hphase
            obtain rfl := Option.some.inj h
            apply change_endFillup hphase
          · contradiction

/-! ### The outcome of an attempt -/

/-- An attempt that finds the tokens. -/
theorem attempt_of_affords (h : s.affords call = true) :
  s.attempt conf i call j =
    ((s.setPool (s.charged call)).setMutex false).result i call.address true
  := if_pos h

/-- The first attempt, when it does not find the tokens. -/
theorem attempt_zero (h : s.affords call = false) :
  s.attempt conf i call 0 = (s.setPool (s.charged call)).startFillup conf i call 0
  := by
  rw [State.attempt]
  dsimp only
  rw [if_neg, if_neg (lt_irrefl 0)]
  · rfl
  · rw [← State.affords, h]
    simp

/-- A later attempt, when it does not find the tokens. -/
theorem attempt_succ (h : s.affords call = false) :
  s.attempt conf i call (j + 1) =
    ((s.setPool (s.charged call)).setMutex false).setPhase i (.penalised call (j + 1))
  := by
  rw [State.attempt]
  dsimp only
  rw [if_neg, if_pos (Nat.succ_pos j)]
  · rfl
  · rw [← State.affords, h]
    simp

/-! ### The table -/

/-- The table before the fill-up of an event: every bucket is as before, or an attempt has been
made to take tokens from it, or it is new. -/
structure Edited (conf : Conf) (s : State) (ev : Event) (p : Pool) : Prop where
  lastTileFillup : p.lastTileFillup = s.pool.lastTileFillup
  lastRenderFillup : p.lastRenderFillup = s.pool.lastRenderFillup
  users : ∀ k, p.users k = s.pool.users k ∨
    (∃ call, s.attempting ev = some call ∧ k = call.address.hashkey ∧
      p.users k = ((s.pool.users k).charge call.missing).1) ∨
    ∃ call, s.creating ev = some call ∧ k = call.address.hashkey ∧
      p.users k = ⟨call.address.ip, conf.tileSize, conf.renderSize⟩

theorem edited_self :
  Edited conf s ev s.pool
  := ⟨rfl, rfl, fun _ => Or.inl rfl⟩

theorem edited_unlock :
  Edited conf s ev { s.pool with locked := false }
  := ⟨rfl, rfl, fun _ => Or.inl rfl⟩

theorem edited_charged (h : s.attempting ev = some call) :
  Edited conf s ev (s.charged call)
  := by
  refine ⟨rfl, rfl, ?_⟩
  intro k
  rcases eq_or_ne k call.address.hashkey with rfl | hne
  · right
    left
    exact ⟨call, h, rfl, Function.update_self _ _ _⟩
  · left
    apply Function.update_of_ne hne

theorem edited_unlock_charged (h : s.attempting ev = some call) :
  Edited conf s ev ((s.setPool { s.pool with locked := false }).charged call)
  := by
  have hcharged : Edited conf s ev (s.charged call) := edited_charged h
  exact ⟨rfl, rfl, hcharged.users⟩

theorem edited_create (h : s.creating ev = some call) :
  Edited conf s ev (s.pool.setEntry call.address.hashkey
    ⟨call.address.ip, conf.tileSize, conf.renderSize⟩)
  := by
  refine ⟨rfl, rfl, ?_⟩
  intro k
  rcases eq_or_ne k call.address.hashkey with rfl | hne
  · right
    right
    exact ⟨call, h, rfl, Function.update_self _ _ _⟩
  · left
    apply Function.update_of_ne hne

/-- What becomes of the table in an event. -/
theorem next_pool (h : s.next conf ev = some s') :
  ∃ p, Edited conf s ev p ∧
    (s.filling ev = none ∧ s'.pool = p ∧ s.clock ≤ s'.clock ∨
      s.filling ev = some p ∧ s'.pool = p.fillup conf s.clock ∧ s'.clock = s.clock)
  := by
  cases change_of_next h with
  | tick d => exact ⟨s.pool, edited_self, Or.inl ⟨rfl, rfl, by simp⟩⟩
  | skip i address missing => exact ⟨s.pool, edited_self, Or.inl ⟨rfl, rfl, le_rfl⟩⟩
  | wait i address missing => exact ⟨s.pool, edited_self, Or.inl ⟨rfl, rfl, le_rfl⟩⟩
  | unlocked i call => exact ⟨s.pool, edited_self, Or.inl ⟨rfl, rfl, le_rfl⟩⟩
  | expelled i call j => exact ⟨s.pool, edited_self, Or.inl ⟨rfl, rfl, le_rfl⟩⟩
  | refuse i call j => exact ⟨_, edited_unlock, Or.inl ⟨rfl, rfl, le_rfl⟩⟩
  | create i call hphase hother =>
      have hcreating : s.creating (.act (.lock i)) = some call := by
        simp [creating, hphase, hother]
      have hfilling : s.filling (.act (.lock i)) = none := by
        simp [filling, hphase, hother]
      exact ⟨_, edited_create hcreating, Or.inl ⟨hfilling, rfl, le_rfl⟩⟩
  | first i call hphase howns =>
      have hattempting : s.attempting (.act (.lock i)) = some call := by
        simp [attempting, hphase, howns]
      refine ⟨_, edited_charged hattempting, ?_⟩
      cases haffords : s.affords call with
      | true =>
          left
          rw [attempt_of_affords haffords]
          have hfilling : s.filling (.act (.lock i)) = none := by
            simp [filling, hphase, haffords]
          exact ⟨hfilling, rfl, le_rfl⟩
      | false =>
          right
          rw [attempt_zero haffords]
          have hfilling : s.filling (.act (.lock i)) = some (s.charged call) := by
            simp [filling, hphase, howns, haffords]
          exact ⟨hfilling, rfl, rfl⟩
  | refill i call j hphase =>
      have hfilling : s.filling (.act (.lock i)) = some s.pool := by
        simp [filling, hphase]
      exact ⟨s.pool, edited_self, Or.inr ⟨hfilling, rfl, rfl⟩⟩
  | again i call j hphase hj =>
      have hattempting : s.attempting (.act (.endFillup i)) = some call := by
        simp [attempting, hphase, hj]
      refine ⟨_, edited_unlock_charged hattempting, ?_⟩
      left
      cases haffords : (s.setPool { s.pool with locked := false }).affords call with
      | true =>
          rw [attempt_of_affords haffords]
          exact ⟨rfl, rfl, le_rfl⟩
      | false =>
          rw [attempt_succ haffords]
          exact ⟨rfl, rfl, le_rfl⟩

end DelayPool
