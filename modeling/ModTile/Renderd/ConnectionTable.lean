import Mathlib.Data.Finset.Card
import Mathlib.Data.Int.Order.Basic
import ModTile.Config
import ModTile.Transition

/-!
# The table of connections

`process_loop` keeps its connections in an array for `poll`.  A slot whose connection has been
closed has the descriptor `FD_INVALID` and is used again for the next connection, and slots
are added at the end until there are `MAX_CONNECTIONS` of them.  Each round of the loop calls
`poll`, accepts at most one connection, and then goes through the slots and receives from
those that `poll` has reported.  A slot that is used again keeps its `revents`, and so does one
that is closed.

The state has the local variables of the function, the point it is at in a round, the
descriptors that are open in the process, and those that the last call of `poll` has reported.
Other threads open and close descriptors of their own at any time, and `accept` returns a
descriptor that is not open.
-/

open Transition

/-- The number of slots for connections. -/
def maxConnections : ℕ := 2048

namespace ProcessLoop

/-- An entry of the array, with the bits of `events` and `revents` for `POLLIN`. -/
structure PollFd where
  fd : ℤ
  events : Bool
  revents : Bool
  deriving DecidableEq

/-- An entry that has not been used. -/
def PollFd.unused : PollFd := ⟨fdInvalid, false, false⟩

/-- What `poll` does to an entry whose descriptor has data or not. -/
def PollFd.poll (p : PollFd) (readable : Bool) : PollFd :=
  { p with revents := decide (0 ≤ p.fd) && p.events && readable }

/-- The points of a round: before the call of `poll`, before the call of `accept`, before a slot
in the loop over the slots, and after the end of the function. -/
inductive Phase where
  | polling
  | accepting
  | scanning (i : ℕ)
  | exited
  deriving DecidableEq

/-- The variables of `process_loop`, the open descriptors, and those reported by the last call of
`poll`. -/
structure State where
  pfd : ℕ → PollFd
  numCslots : ℕ
  numConns : ℤ
  phase : Phase
  isOpen : ℤ → Bool
  reported : ℤ → Bool

/-- What happens next: `poll` fails, times out, or returns with data for the listening socket,
for the pipe or for some slots; `accept` returns a descriptor or an error; the next slot is
looked at, where `ret` is what `recv_cmd` returns if it is called; or another thread opens or
closes a descriptor. -/
inductive Action where
  | pollFailed
  | pollTimeout
  | poll (listen exit : Bool) (readable : ℕ → Bool)
  | accept (incoming : ℤ)
  | scan (ret : ℤ)
  | openOther (fd : ℤ)
  | closeOther (fd : ℤ)

/-- The start of the loop, with some descriptors open. -/
def init (isOpen : ℤ → Bool) : State where
  pfd := fun _ => .unused
  numCslots := 0
  numConns := 0
  phase := .polling
  isOpen := isOpen
  reported := fun _ => false

namespace State

/-- The state after a call of `poll`. -/
def polled (s : State) (readable : ℕ → Bool) : State :=
  let pfd := fun i => if i < s.numCslots then (s.pfd i).poll (readable i) else s.pfd i
  { s with
    pfd := pfd
    reported := fun fd => (List.range s.numCslots).any fun i =>
      (pfd i).fd = fd && (pfd i).revents }

/-- The first slot that is not in use. -/
def unusedSlot (s : State) : Option ℕ :=
  (List.range s.numCslots).find? fun i => (s.pfd i).fd = fdInvalid

/-- The connection is put into the slot `i`. -/
def store (s : State) (i : ℕ) (incoming : ℤ) : State :=
  { s with
    pfd := Function.update s.pfd i { s.pfd i with fd := incoming, events := true }
    numConns := s.numConns + 1
    phase := .scanning 0
    isOpen := Function.update s.isOpen incoming true }

/-- The state after `accept` has returned a connection. -/
def accepted (s : State) (incoming : ℤ) : State :=
  match s.unusedSlot with
  | some i => s.store i incoming
  | none =>
      if s.numCslots = maxConnections then
        { s with phase := .scanning 0, isOpen := Function.update s.isOpen incoming false }
      else { s with numCslots := s.numCslots + 1 }.store s.numCslots incoming

/-- The descriptor on which `recv_cmd` is called for the slot `i`. -/
def receivesOn (s : State) (i : ℕ) : Option ℤ :=
  if 0 ≤ (s.pfd i).fd ∧ (s.pfd i).revents then some (s.pfd i).fd else none

/-- The connection in the slot `i` is closed. -/
def closed (s : State) (i : ℕ) : State :=
  { s with
    pfd := Function.update s.pfd i { s.pfd i with fd := fdInvalid }
    numConns := s.numConns - 1
    isOpen := Function.update s.isOpen (s.pfd i).fd false }

/-- The next step of the loop or of another thread. -/
def step (s : State) : Action → Option State
  | .pollFailed => if s.phase = .polling then some s else none
  | .pollTimeout => if s.phase = .polling then some (s.polled fun _ => false) else none
  | .poll listen exit readable =>
      if s.phase = .polling then
        some { s.polled readable with
          phase := if exit then .exited else if listen then .accepting else .scanning 0 }
      else none
  | .accept incoming =>
      if s.phase = .accepting then
        if incoming < 0 then some { s with phase := .scanning 0 }
        else if s.isOpen incoming then none
        else some (s.accepted incoming)
      else none
  | .scan ret =>
      match s.phase with
      | .scanning i =>
          if i < s.numCslots then
            let s' := if (s.receivesOn i).isSome ∧ ret < 1 then s.closed i else s
            some { s' with phase := .scanning (i + 1) }
          else some { s with phase := .polling }
      | _ => none
  | .openOther fd =>
      if s.isOpen fd then none else some { s with isOpen := Function.update s.isOpen fd true }
  | .closeOther fd =>
      if ∃ i < s.numCslots, (s.pfd i).fd = fd then none
      else some { s with isOpen := Function.update s.isOpen fd false }

/-- The slots that are in use. -/
def occupied (s : State) : Finset ℕ :=
  (Finset.range maxConnections).filter fun i => (s.pfd i).fd ≠ fdInvalid

/-- The state of the table between two steps. -/
structure Invariant (s : State) : Prop where
  /-- There are not more slots than the array has. -/
  slots : s.numCslots ≤ maxConnections
  /-- The slots in use are counted. -/
  conns : s.numConns = s.occupied.card
  /-- The entries behind the slots have not been used. -/
  beyond : ∀ {i}, s.numCslots ≤ i → s.pfd i = .unused
  /-- The descriptor of a slot in use is open. -/
  used : ∀ {i}, (s.pfd i).fd ≠ fdInvalid → 0 ≤ (s.pfd i).fd ∧ s.isOpen (s.pfd i).fd
  /-- No descriptor is in two slots. -/
  unique : ∀ {i j}, (s.pfd i).fd ≠ fdInvalid → (s.pfd i).fd = (s.pfd j).fd → i = j
  /-- A slot in use that is marked as readable has been reported. -/
  marked : ∀ {i}, (s.pfd i).fd ≠ fdInvalid → (s.pfd i).revents → s.reported (s.pfd i).fd
  /-- Before a connection is accepted, a slot that is not in use is not marked. -/
  unmarked : s.phase = .accepting → ∀ {i}, (s.pfd i).fd = fdInvalid → (s.pfd i).revents = false

variable {s s' : State} {i j : ℕ} {fd incoming : ℤ} {isOpen : ℤ → Bool}

theorem invariant_init :
  (init isOpen).Invariant
  := by
  constructor
  case slots => apply Nat.zero_le
  case conns => simp [init, occupied, PollFd.unused]
  case beyond =>
    intro i _
    rfl
  case used => simp [init, PollFd.unused]
  case unique => simp [init, PollFd.unused]
  case marked => simp [init, PollFd.unused]
  case unmarked => simp [init]

/-- The first unused slot is one of the slots and is not in use. -/
theorem of_unusedSlot (h : s.unusedSlot = some i) :
  i < s.numCslots ∧ (s.pfd i).fd = fdInvalid
  := by
  have hmem := List.mem_of_find?_eq_some h
  have hfd := List.find?_some h
  exact ⟨List.mem_range.mp hmem, of_decide_eq_true hfd⟩

/-- Without an unused slot all slots are in use. -/
theorem used_of_unusedSlot (h : s.unusedSlot = none) (hi : i < s.numCslots) :
  (s.pfd i).fd ≠ fdInvalid
  := by
  have hfd := List.find?_eq_none.mp h i (List.mem_range.mpr hi)
  simpa using hfd

/-- What is polled is the same entry with other marks. -/
theorem fd_polled (readable : ℕ → Bool) :
  ((s.polled readable).pfd i).fd = (s.pfd i).fd
  := by
  simp only [polled]
  split <;> rfl

theorem occupied_polled (readable : ℕ → Bool) :
  (s.polled readable).occupied = s.occupied
  := by
  simp only [occupied, fd_polled]

/-- After a call of `poll` the marked entries have descriptors, and they have been reported. -/
theorem Invariant.of_revents_polled (hs : s.Invariant) {readable : ℕ → Bool}
    (h : ((s.polled readable).pfd i).revents = true) :
  (s.pfd i).fd ≠ fdInvalid ∧ (s.polled readable).reported (s.pfd i).fd = true
  := by
  have hi : i < s.numCslots := by
    by_contra hi
    simp [polled, hi, hs.beyond (not_lt.mp hi), PollFd.unused] at h
  constructor
  · intro hfd
    simp [polled, hi, PollFd.poll, hfd, fdInvalid] at h
  · rw [polled, List.any_eq_true]
    use i, List.mem_range.mpr hi
    have hfd := fd_polled (s := s) (i := i) readable
    simp only [polled] at h hfd
    simp [hfd, h]

/-- A call of `poll` keeps the invariant. -/
theorem Invariant.polled (hs : s.Invariant) (readable : ℕ → Bool) (phase : Phase) :
  ({ s.polled readable with phase := phase }).Invariant
  := by
  have hfd : ∀ i, ((s.polled readable).pfd i).fd = (s.pfd i).fd := fun i => fd_polled readable
  constructor
  case slots => apply hs.slots
  case conns =>
    have hoccupied := occupied_polled (s := s) readable
    simp only [occupied] at hoccupied
    simp only [occupied, hoccupied]
    apply hs.conns
  case beyond =>
    intro i hi
    simp only [State.polled] at hi ⊢
    rw [if_neg (not_lt.mpr hi)]
    apply hs.beyond hi
  case used =>
    intro i h
    rw [hfd] at h ⊢
    apply hs.used h
  case unique =>
    intro i j h heq
    rw [hfd] at h heq
    rw [hfd] at heq
    apply hs.unique h heq
  case marked =>
    intro i h hmark
    rw [hfd]
    apply (hs.of_revents_polled hmark).2
  case unmarked =>
    intro _ i h
    rw [hfd] at h
    by_contra hmark
    rw [Bool.not_eq_false] at hmark
    apply (hs.of_revents_polled hmark).1 h

/-- A step that leaves the array alone, may add a slot at its end, and neither opens nor closes
the descriptor of a slot. -/
theorem Invariant.of_pfd (hs : s.Invariant) (hpfd : s'.pfd = s.pfd)
    (hle : s.numCslots ≤ s'.numCslots) (hmax : s'.numCslots ≤ maxConnections)
    (hconns : s'.numConns = s.numConns) (hreported : s'.reported = s.reported)
    (hopen : ∀ {i}, (s.pfd i).fd ≠ fdInvalid → s'.isOpen (s.pfd i).fd = s.isOpen (s.pfd i).fd)
    (hphase : s'.phase = .accepting → s.phase = .accepting) :
  s'.Invariant
  := by
  constructor
  case slots => apply hmax
  case conns =>
    rw [occupied, hpfd, hconns]
    apply hs.conns
  case beyond =>
    intro i hi
    rw [hpfd]
    apply hs.beyond (hle.trans hi)
  case used =>
    intro i h
    rw [hpfd] at h ⊢
    rw [hopen h]
    apply hs.used h
  case unique =>
    rw [hpfd]
    exact hs.unique
  case marked =>
    rw [hpfd, hreported]
    exact hs.marked
  case unmarked =>
    intro h
    rw [hpfd]
    exact hs.unmarked (hphase h)

theorem Invariant.of_phase (hs : s.Invariant) {phase : Phase} (h : phase ≠ .accepting) :
  ({ s with phase := phase }).Invariant
  := hs.of_pfd rfl le_rfl hs.slots rfl rfl (fun _ => rfl) (fun heq => absurd heq h)

/-- A descriptor that is not open is in no slot. -/
theorem Invariant.not_stored (hs : s.Invariant) (h0 : 0 ≤ incoming)
    (hopen : s.isOpen incoming = false) :
  (s.pfd i).fd ≠ incoming
  := by
  intro h
  have hne : (s.pfd i).fd ≠ fdInvalid := by
    rw [h, fdInvalid]
    omega
  have hused := (hs.used hne).2
  rw [h, hopen] at hused
  cases hused

theorem pfd_store_self :
  (s.store i incoming).pfd i = { s.pfd i with fd := incoming, events := true }
  := Function.update_self ..

theorem pfd_store_of_ne (h : j ≠ i) :
  (s.store i incoming).pfd j = s.pfd j
  := Function.update_of_ne h ..

theorem occupied_store (hi : i < maxConnections) (hinvalid : incoming ≠ fdInvalid) :
  (s.store i incoming).occupied = insert i s.occupied
  := by
  ext j
  simp only [occupied, Finset.mem_filter, Finset.mem_range, Finset.mem_insert]
  by_cases hj : j = i
  · subst hj
    simp [pfd_store_self, hinvalid, hi]
  · simp [pfd_store_of_ne hj, hj]

/-- Putting a connection into a slot that is not in use. -/
theorem Invariant.store (hs : s.Invariant) (hi : i < s.numCslots)
    (hfree : (s.pfd i).fd = fdInvalid) (hmark : (s.pfd i).revents = false) (h0 : 0 ≤ incoming)
    (hopen : s.isOpen incoming = false) :
  (s.store i incoming).Invariant
  := by
  have hinvalid : incoming ≠ fdInvalid := by
    rw [fdInvalid]
    omega
  constructor
  case slots => apply hs.slots
  case conns =>
    have hnot : i ∉ s.occupied := by simp [occupied, hfree]
    have hconns := hs.conns
    rw [occupied_store (hi.trans_le hs.slots) hinvalid, Finset.card_insert_of_notMem hnot]
    dsimp only [State.store]
    omega
  case beyond =>
    intro j hj
    rw [pfd_store_of_ne (hi.trans_le hj).ne']
    apply hs.beyond hj
  case used =>
    intro j h
    by_cases hj : j = i
    · subst hj
      rw [pfd_store_self]
      exact ⟨h0, Function.update_self ..⟩
    · rw [pfd_store_of_ne hj] at h ⊢
      use (hs.used h).1
      dsimp only [State.store]
      rw [Function.update_of_ne (hs.not_stored h0 hopen)]
      apply (hs.used h).2
  case unique =>
    intro j k h heq
    by_cases hj : j = i
    · by_cases hk : k = i
      · rw [hj, hk]
      · rw [hj, pfd_store_self, pfd_store_of_ne hk] at heq
        exact absurd heq.symm (hs.not_stored h0 hopen)
    · rw [pfd_store_of_ne hj] at h heq
      by_cases hk : k = i
      · rw [hk, pfd_store_self] at heq
        exact absurd heq (hs.not_stored h0 hopen)
      · rw [pfd_store_of_ne hk] at heq
        apply hs.unique h heq
  case marked =>
    intro j h hmark'
    by_cases hj : j = i
    · rw [hj, pfd_store_self, hmark] at hmark'
      cases hmark'
    · rw [pfd_store_of_ne hj] at h hmark' ⊢
      apply hs.marked h hmark'
  case unmarked =>
    intro h
    cases h

/-- A connection that has been accepted is put into a slot that was not in use, or it is closed
because all slots of the array are in use. -/
inductive Accepted (s : State) (incoming : ℤ) : State → Prop where
  | stored (i : ℕ) (t : State) (hpfd : t.pfd = s.pfd) (hopen : t.isOpen = s.isOpen)
      (ht : t.Invariant) (hphase : t.phase = s.phase) (hi : i < t.numCslots)
      (hfree : (s.pfd i).fd = fdInvalid) : Accepted s incoming (t.store i incoming)
  | dropped (hfull : ∀ i < maxConnections, (s.pfd i).fd ≠ fdInvalid) :
      Accepted s incoming
        { s with phase := .scanning 0, isOpen := Function.update s.isOpen incoming false }

theorem Invariant.accepted_cases (hs : s.Invariant) (incoming : ℤ) :
  Accepted s incoming (s.accepted incoming)
  := by
  rw [accepted]
  split
  · rename_i i h
    obtain ⟨hi, hfree⟩ := of_unusedSlot h
    exact .stored i s rfl rfl hs rfl hi hfree
  · rename_i h
    split
    · rename_i hfull
      apply Accepted.dropped
      intro i hi
      apply used_of_unusedSlot h
      rwa [hfull]
    · rename_i hroom
      have ht : ({ s with numCslots := s.numCslots + 1 } : State).Invariant :=
        hs.of_pfd rfl (Nat.le_succ _) (Nat.lt_of_le_of_ne hs.slots hroom) rfl rfl
          (fun _ => rfl) id
      refine .stored _ _ rfl rfl ht rfl (Nat.lt_succ_self _) ?_
      rw [hs.beyond le_rfl]
      rfl

/-- Accepting a connection keeps the invariant. -/
theorem Invariant.accepted (hs : s.Invariant) (hphase : s.phase = .accepting)
    (h0 : 0 ≤ incoming) (hopen : s.isOpen incoming = false) :
  (s.accepted incoming).Invariant
  := by
  have hcases := hs.accepted_cases incoming
  generalize s.accepted incoming = t at hcases
  cases hcases with
  | stored i t hpfd hopen' ht hphase' hi hfree =>
      rw [← hopen'] at hopen
      rw [← hpfd] at hfree
      apply ht.store hi hfree _ h0 hopen
      apply ht.unmarked (hphase'.trans hphase) hfree
  | dropped hfull =>
      refine hs.of_pfd rfl le_rfl hs.slots rfl rfl ?_ (by simp)
      intro i h
      apply Function.update_of_ne (hs.not_stored h0 hopen)

theorem pfd_closed_self :
  (s.closed i).pfd i = { s.pfd i with fd := fdInvalid }
  := Function.update_self ..

theorem pfd_closed_of_ne (h : j ≠ i) :
  (s.closed i).pfd j = s.pfd j
  := Function.update_of_ne h ..

theorem occupied_closed :
  (s.closed i).occupied = s.occupied.erase i
  := by
  ext j
  simp only [occupied, Finset.mem_filter, Finset.mem_range, Finset.mem_erase]
  by_cases hj : j = i
  · subst hj
    simp [pfd_closed_self]
  · simp [pfd_closed_of_ne hj, hj]

/-- Closing the connection of a slot keeps the invariant. -/
theorem Invariant.closed (hs : s.Invariant) (hi : i < s.numCslots)
    (hfd : (s.pfd i).fd ≠ fdInvalid) (hphase : s.phase ≠ .accepting) :
  (s.closed i).Invariant
  := by
  have hne : ∀ {j}, ((s.closed i).pfd j).fd ≠ fdInvalid → j ≠ i := by
    rintro j h rfl
    apply h
    rw [pfd_closed_self]
  constructor
  case slots => apply hs.slots
  case conns =>
    have hmem : i ∈ s.occupied := by
      simp [occupied, hfd, hi.trans_le hs.slots]
    have hcard := Finset.card_erase_add_one hmem
    have hconns := hs.conns
    rw [occupied_closed]
    dsimp only [State.closed]
    omega
  case beyond =>
    intro j hj
    rw [pfd_closed_of_ne (hi.trans_le hj).ne']
    apply hs.beyond hj
  case used =>
    intro j h
    have hj := hne h
    rw [pfd_closed_of_ne hj] at h ⊢
    use (hs.used h).1
    dsimp only [State.closed]
    rw [Function.update_of_ne]
    · apply (hs.used h).2
    · intro heq
      apply hj (hs.unique h heq)
  case unique =>
    intro j k h heq
    have hj := hne h
    rw [pfd_closed_of_ne hj] at h heq
    by_cases hk : k = i
    · rw [hk, pfd_closed_self] at heq
      exact absurd heq h
    · rw [pfd_closed_of_ne hk] at heq
      apply hs.unique h heq
  case marked =>
    intro j h hmark
    have hj := hne h
    rw [pfd_closed_of_ne hj] at h hmark ⊢
    apply hs.marked h hmark
  case unmarked =>
    intro h
    apply absurd h hphase

/-- `recv_cmd` is called for slots in use. -/
theorem of_receivesOn (h : s.receivesOn i = some fd) :
  (s.pfd i).fd = fd ∧ 0 ≤ fd ∧ (s.pfd i).revents = true
  := by
  rw [receivesOn] at h
  split at h
  · rename_i hready
    obtain rfl := Option.some.inj h
    exact ⟨rfl, hready⟩
  · cases h

theorem used_of_receivesOn (h : s.receivesOn i = some fd) :
  (s.pfd i).fd ≠ fdInvalid
  := by
  obtain ⟨hfd, h0, -⟩ := of_receivesOn h
  rw [hfd, fdInvalid]
  omega

/-- Every step keeps the invariant. -/
theorem Invariant.step {a : Action} (hs : s.Invariant) (hstep : s.step a = some s') :
  s'.Invariant
  := by
  cases a with
  | pollFailed =>
      simp only [State.step] at hstep
      split at hstep
      · obtain rfl := Option.some.inj hstep
        apply hs
      · cases hstep
  | pollTimeout =>
      simp only [State.step] at hstep
      split at hstep
      · obtain rfl := Option.some.inj hstep
        apply hs.polled (fun _ => false) s.phase
      · cases hstep
  | poll listen exit readable =>
      simp only [State.step] at hstep
      split at hstep
      · obtain rfl := Option.some.inj hstep
        apply hs.polled
      · cases hstep
  | accept incoming =>
      simp only [State.step] at hstep
      split at hstep
      · rename_i hphase
        split at hstep
        · obtain rfl := Option.some.inj hstep
          exact hs.of_phase nofun
        · rename_i h0
          split at hstep
          · cases hstep
          · rename_i hopen
            obtain rfl := Option.some.inj hstep
            apply hs.accepted hphase (not_lt.mp h0) (Bool.not_eq_true _ ▸ hopen)
      · cases hstep
  | scan ret =>
      simp only [State.step] at hstep
      split at hstep
      · rename_i i hphase
        split at hstep
        · rename_i hi
          obtain rfl := Option.some.inj hstep
          split
          · rename_i hclose
            obtain ⟨fd, hfd⟩ := Option.isSome_iff_exists.mp hclose.1
            have hc := hs.closed hi (used_of_receivesOn hfd) (by simp [hphase])
            exact hc.of_phase nofun
          · exact hs.of_phase nofun
        · obtain rfl := Option.some.inj hstep
          exact hs.of_phase nofun
      · cases hstep
  | openOther fd =>
      simp only [State.step] at hstep
      split at hstep
      · cases hstep
      · rename_i hopen
        obtain rfl := Option.some.inj hstep
        refine hs.of_pfd rfl le_rfl hs.slots rfl rfl ?_ id
        intro i h
        apply Function.update_of_ne
        rintro rfl
        apply hopen (hs.used h).2
  | closeOther fd =>
      simp only [State.step] at hstep
      split at hstep
      · cases hstep
      · rename_i hnot
        obtain rfl := Option.some.inj hstep
        refine hs.of_pfd rfl le_rfl hs.slots rfl rfl ?_ id
        intro i h
        apply Function.update_of_ne
        rintro rfl
        apply hnot
        refine ⟨i, ?_, rfl⟩
        by_contra hi
        rw [hs.beyond (not_lt.mp hi)] at h
        apply h
        rfl

theorem reach_invariant (h : Reach step anyStep (init isOpen) s) :
  s.Invariant
  := by
  apply h.invariant invariant_init
  intro t a u ht _ hstep
  apply ht.step hstep

/-- The connection `incoming` has been put into one slot, which was not in use, or it has been
closed because all slots are in use, and the other slots are as they were. -/
def StoredOrClosed (s : State) (incoming : ℤ) (s' : State) : Prop :=
  (∃ i < maxConnections, (s.pfd i).fd = fdInvalid ∧ s'.isOpen incoming = true ∧
      (∀ j, (s'.pfd j).fd = incoming ↔ j = i) ∧ ∀ j ≠ i, s'.pfd j = s.pfd j) ∨
    (∀ i < maxConnections, (s.pfd i).fd ≠ fdInvalid) ∧ s'.isOpen incoming = false ∧
      s'.pfd = s.pfd

/-- What becomes of a connection that has been accepted. -/
theorem Invariant.storedOrClosed (hs : s.Invariant) (h0 : 0 ≤ incoming)
    (hopen : s.isOpen incoming = false) :
  StoredOrClosed s incoming (s.accepted incoming)
  := by
  have hcases := hs.accepted_cases incoming
  generalize s.accepted incoming = t at hcases
  cases hcases with
  | stored i t hpfd hopen' ht hphase' hi hfree =>
      left
      refine ⟨i, hi.trans_le ht.slots, hfree, Function.update_self .., ?_, ?_⟩
      · intro j
        constructor
        · intro h
          by_contra hj
          rw [pfd_store_of_ne hj, hpfd] at h
          apply hs.not_stored h0 hopen h
        · rintro rfl
          rw [pfd_store_self]
      · intro j hj
        rw [pfd_store_of_ne hj, hpfd]
  | dropped hfull =>
      right
      exact ⟨hfull, Function.update_self .., rfl⟩

/-- In every reached state, the slots in use are counted, there are not more slots than the array
has, and no descriptor is in two slots.  A connection that is accepted is put into one slot or
closed because all of them are in use, and `recv_cmd` is called only for a descriptor that the
last call of `poll` has reported. -/
theorem connection_table (h : Reach step anyStep (init isOpen) s) :
  s.numConns = s.occupied.card ∧ s.numCslots ≤ maxConnections ∧
    (∀ i j, (s.pfd i).fd ≠ fdInvalid → (s.pfd i).fd = (s.pfd j).fd → i = j) ∧
    (∀ incoming s', 0 ≤ incoming → s.step (.accept incoming) = some s' →
      StoredOrClosed s incoming s') ∧
    ∀ i fd, s.phase = .scanning i → s.receivesOn i = some fd → s.reported fd = true
  := by
  have hs := reach_invariant h
  refine ⟨hs.conns, hs.slots, fun i j => hs.unique, ?_, ?_⟩
  · intro incoming s' h0 hstep
    simp only [step] at hstep
    split at hstep
    · rw [if_neg (not_lt.mpr h0)] at hstep
      split at hstep
      · cases hstep
      · rename_i hopen
        obtain rfl := Option.some.inj hstep
        apply hs.storedOrClosed h0 (Bool.not_eq_true _ ▸ hopen)
    · cases hstep
  · intro i fd _ hreceives
    obtain ⟨hfd, -, hmark⟩ := of_receivesOn hreceives
    rw [← hfd]
    apply hs.marked (used_of_receivesOn hreceives) hmark

/-- Two connections are accepted and the first one is closed, and its slot is used for the third
one while there is data on the second one. -/
theorem connection_table_reused :
  ∃ s, run step (fun _ _ => true) (init fun _ => false)
      [.poll true false fun _ => false, .accept 7, .scan 1, .scan 1,
       .poll true false fun _ => false, .accept 8, .scan 1, .scan 1, .scan 1,
       .poll false false fun i => i = 0, .scan 0, .scan 1, .scan 1,
       .poll true false fun i => i = 1, .accept 7, .scan 1] = some s ∧
    s.numConns = s.occupied.card ∧ s.receivesOn 0 = none ∧ s.receivesOn 1 = some 8 ∧
    s.reported 8 = true
  := by
  have hrun : (run step (fun _ _ => true) (init fun _ => false)
      [.poll true false fun _ => false, .accept 7, .scan 1, .scan 1,
       .poll true false fun _ => false, .accept 8, .scan 1, .scan 1, .scan 1,
       .poll false false fun i => i = 0, .scan 0, .scan 1, .scan 1,
       .poll true false fun i => i = 1, .accept 7, .scan 1]).map
      (fun s => (s.phase, s.receivesOn 0, s.receivesOn 1)) =
      some (.scanning 1, none, some 8) := by
    decide +kernel
  obtain ⟨s, hs, h⟩ := Option.map_eq_some_iff.mp hrun
  simp only [Prod.mk.injEq] at h
  obtain ⟨hphase, hfirst, hsecond⟩ := h
  obtain ⟨hconns, -, -, -, hreported⟩ :=
    connection_table (reach_of_run hs fun _ _ _ => trivial)
  exact ⟨s, hs, hconns, hfirst, hsecond, hreported 1 8 hphase hsecond⟩

end State

end ProcessLoop
