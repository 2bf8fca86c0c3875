import Mathlib.Logic.Function.Basic
import ModTile.TokenBucket
import ModTile.Transition

/-!
# The delay pool

`delay_allowed` of `mod_tile.c`, which throttles the clients of the module.  A table in shared
memory has a bucket of tokens for every client, in the place that the address of the client
hashes to.  A client whose address is not in its place gets a new bucket, which is full, and its
request is granted without taking a token.  When a bucket is empty, all buckets are filled with
the tokens for the time since they were filled last, and the client has two more attempts, after
each of which it is made to wait if it fails.

Processes call the function at the same time.  Between the points at which the mutex is taken
and given back a call is alone with the table, except for the flag `locked`: a call that finds
it set is granted at once.
-/

namespace DelayPool

open Transition

/-- The number of places in the table. -/
def hashtableSize : ℕ := 100057

/-- The number of places in the list of addresses that are not throttled. -/
def whitelistSize : ℕ := 13

/-- The four words of `struct in6_addr`. -/
abbrev In6Addr : Type := UInt32 × UInt32 × UInt32 × UInt32

/-- The address of a client. -/
inductive Address where
  | v4 (sAddr : UInt32)
  | v6 (ip : In6Addr)
  deriving DecidableEq

namespace Address

/-- The address as it stands in the table. -/
def ip : Address → In6Addr
  | v4 sAddr => (0, 0, 0, sAddr)
  | v6 ip => ip

/-- The place for the address. -/
def hashkey (address : Address) : ℕ :=
  let (a, b, c, d) := address.ip
  (a ^^^ b ^^^ c ^^^ d).toNat % hashtableSize

end Address

/-- `delaypool_entry`: the bucket of a client. -/
structure Entry where
  ipAddr : In6Addr
  availableTiles : ℤ
  availableRenderReq : ℤ
  deriving DecidableEq

/-- `delaypool`: the table in shared memory. -/
structure Pool where
  users : ℕ → Entry
  whitelist : ℕ → UInt32
  lastTileFillup : ℤ
  lastRenderFillup : ℤ
  locked : Bool

/-- The sizes of the buckets, and the microseconds for one token. -/
structure Conf where
  tileSize : ℤ
  renderSize : ℤ
  tileRate : ℤ
  renderRate : ℤ

/-- The value of a number that is stored in an `int`. -/
def toInt (n : ℤ) : ℤ := n.bmod (2 ^ 32)

/-- The bucket after an attempt to take a token for a tile, and one for a rendering if the tile
is missing, and whether there were tokens. -/
def Entry.charge (e : Entry) (missing : Bool) : Entry × Bool :=
  let (tiles, tilesLeft) :=
    if e.availableTiles > 0 then (e.availableTiles - 1, true) else (e.availableTiles, false)
  let (renders, rendersLeft) :=
    if missing then
      if e.availableRenderReq > 0 then (e.availableRenderReq - 1, true)
      else (e.availableRenderReq, false)
    else (e.availableRenderReq, true)
  (⟨e.ipAddr, tiles, renders⟩, tilesLeft && rendersLeft)

/-- The bucket with more tokens, up to its size. -/
def Entry.topUp (conf : Conf) (tiles renders : ℤ) (e : Entry) : Entry where
  ipAddr := e.ipAddr
  availableTiles :=
    if toInt (e.availableTiles + tiles) > conf.tileSize then conf.tileSize
    else toInt (e.availableTiles + tiles)
  availableRenderReq :=
    if toInt (e.availableRenderReq + renders) > conf.renderSize then conf.renderSize
    else toInt (e.availableRenderReq + renders)

/-- The table while all buckets are filled. -/
def Pool.fillup (conf : Conf) (now : ℤ) (p : Pool) : Pool :=
  let tiles := toInt ((now - p.lastTileFillup).tdiv conf.tileRate)
  let renders := toInt ((now - p.lastRenderFillup).tdiv conf.renderRate)
  { p with
    users := if tiles > 0 ∨ renders > 0 then fun i => (p.users i).topUp conf tiles renders
      else p.users
    lastTileFillup := p.lastTileFillup + conf.tileRate * tiles
    lastRenderFillup := p.lastRenderFillup + conf.renderRate * renders
    locked := tiles > 0 ∨ renders > 0 }

/-- The table with another bucket in a place. -/
def Pool.setEntry (p : Pool) (i : ℕ) (e : Entry) : Pool :=
  { p with users := Function.update p.users i e }

/-- A call for a client, for a tile that may be missing. -/
structure Call where
  address : Address
  missing : Bool
  deriving DecidableEq

/-- Where a process is in the function: before the mutex, in the fill-up after the attempt
`j`, or waiting as a penalty after it. -/
inductive Phase where
  | idle
  | waiting (call : Call)
  | filling (call : Call) (j : ℕ)
  | penalised (call : Call) (j : ℕ)
  deriving DecidableEq

/-- The call that a process is in. -/
def Phase.call : Phase → Option Call
  | idle => none
  | waiting call | filling call _ | penalised call _ => some call

/-- A result of the function: the address, if it is one, whether the request was granted, and
when. -/
structure Result where
  address : Option Address
  allowed : Bool
  time : ℤ
  deriving DecidableEq

/-- The table, the mutex, the processes, the clock, and the results so far. -/
structure State where
  pool : Pool
  mutex : Bool
  phase : ℕ → Phase
  clock : ℤ
  returned : List Result

/-- What happens next: time passes, a process calls the function for a client or for something
that is not an address, a process gets the mutex, or a process ends a fill-up. -/
inductive Action where
  | tick (d : ℕ)
  | enter (i : ℕ) (address : Option Address) (missing : Bool)
  | lock (i : ℕ)
  | endFillup (i : ℕ)
  deriving DecidableEq

namespace State

variable (conf : Conf)

def setPhase (s : State) (i : ℕ) (phase : Phase) : State :=
  { s with phase := Function.update s.phase i phase }

def setMutex (s : State) (mutex : Bool) : State :=
  { s with mutex := mutex }

def setPool (s : State) (pool : Pool) : State :=
  { s with pool := pool }

/-- The call of a process returns. -/
def result (s : State) (i : ℕ) (address : Option Address) (allowed : Bool) : State :=
  { s.setPhase i .idle with returned := s.returned ++ [⟨address, allowed, s.clock⟩] }

/-- A fill-up after the attempt `j`. -/
def startFillup (s : State) (i : ℕ) (call : Call) (j : ℕ) : State :=
  ((s.setPool (s.pool.fillup conf s.clock)).setMutex true).setPhase i (.filling call j)

/-- The attempt `j` to take tokens.  The client is made to wait when it was not the first. -/
def attempt (s : State) (i : ℕ) (call : Call) (j : ℕ) : State :=
  let (e, allowed) := (s.pool.users call.address.hashkey).charge call.missing
  let s := s.setPool (s.pool.setEntry call.address.hashkey e)
  if allowed then (s.setMutex false).result i call.address true
  else if j > 0 then (s.setMutex false).setPhase i (.penalised call j)
  else s.startFillup conf i call j

/-- A new bucket for the client, in place of the one that was there. -/
def create (s : State) (i : ℕ) (call : Call) : State :=
  ((s.setPool (s.pool.setEntry call.address.hashkey
    ⟨call.address.ip, conf.tileSize, conf.renderSize⟩)).setMutex false).result i call.address true

/-- The call when it has the mutex for the first time. -/
def account (s : State) (i : ℕ) (call : Call) : State :=
  if (s.pool.users call.address.hashkey).ipAddr = call.address.ip then s.attempt conf i call 0
  else s.create conf i call

/-- The address is on the list of those that are not throttled. -/
def whitelisted (s : State) : Address → Bool
  | .v4 sAddr => s.pool.whitelist (sAddr.toNat % whitelistSize) = sAddr
  | .v6 _ => false

/-- The state after the function is entered. -/
def enter (s : State) (i : ℕ) (missing : Bool) : Option Address → State
  | none => s.result i none false
  | some address =>
      if s.whitelisted address || s.pool.locked then s.result i address true
      else s.setPhase i (.waiting ⟨address, missing⟩)

/-- The state after the end of a fill-up. -/
def endFillup (s : State) (i : ℕ) (call : Call) (j : ℕ) : State :=
  let s := s.setPool { s.pool with locked := false }
  if j + 1 < 3 then s.attempt conf i call (j + 1)
  else (s.setMutex false).result i call.address false

/-- The state after an action, if it is possible. -/
def step (s : State) : Action → Option State
  | .tick d => some { s with clock := s.clock + d }
  | .enter i address missing =>
      if s.phase i = .idle then some (s.enter i missing address) else none
  | .lock i =>
      if s.mutex then none
      else match s.phase i with
        | .waiting call => some (s.account conf i call)
        | .penalised call j => some (s.startFillup conf i call j)
        | _ => none
  | .endFillup i =>
      match s.phase i with
      | .filling call j => some (s.endFillup conf i call j)
      | _ => none

/-- The state in which `mod_tile_post_config` leaves the table. -/
def init (now : ℤ) : State where
  pool := {
    users := fun _ => ⟨(0, 0, 0, 0), 0, 0⟩
    whitelist := fun _ => 0
    lastTileFillup := now
    lastRenderFillup := now
    locked := false }
  mutex := false
  phase := fun _ => .idle
  clock := now
  returned := []

end State

/-! ### The operations on a bucket -/

variable {conf : Conf} {e : Entry} {p : Pool} {now : ℤ} {missing : Bool}

theorem toInt_of_nonneg {n : ℤ} (h : 0 ≤ n) (hlt : n < 2 ^ 31) :
  toInt n = n
  := by
  rw [toInt, Int.bmod_eq_of_le] <;> omega

/-- The number of tokens for some time, if it fits. -/
theorem toInt_tdiv {elapsed rate : ℤ} (hrate : 0 < rate) (helapsed : 0 ≤ elapsed)
    (hfits : elapsed / rate < 2 ^ 31) :
  toInt (elapsed.tdiv rate) = elapsed / rate
  := by
  rw [Int.tdiv_eq_ediv_of_nonneg helapsed]
  apply toInt_of_nonneg (Int.ediv_nonneg helapsed hrate.le) hfits

/-- There is room for the tokens of a time that is short enough. -/
theorem ediv_lt_of_elapsed {elapsed rate size : ℤ} (hrate : 0 < rate)
    (h : elapsed < rate * (2 ^ 31 - size)) :
  elapsed / rate < 2 ^ 31 - size
  := by
  apply Int.ediv_lt_of_lt_mul hrate
  rwa [mul_comm]

/-- The time for the tokens is not longer than the time that has passed. -/
theorem fillup_le {last rate : ℤ} (now : ℤ) (hrate : 0 < rate) :
  last + rate * ((now - last) / rate) ≤ now
  := by
  have hmul := Int.mul_ediv_self_le (x := now - last) hrate.ne'
  linarith

/-- A counter with more tokens has those for which there is room. -/
theorem topUp_eq_min {size tokens n : ℤ} (h : 0 ≤ tokens) (hn : 0 ≤ n)
    (hlt : tokens + n < 2 ^ 31) :
  (if toInt (tokens + n) > size then size else toInt (tokens + n)) = min size (tokens + n)
  := by
  rw [toInt_of_nonneg (by omega) hlt]
  split_ifs <;> omega

theorem ipAddr_charge (missing : Bool) :
  (e.charge missing).1.ipAddr = e.ipAddr
  := rfl

/-- A request that is granted has taken a token. -/
theorem availableTiles_of_charge (h : (e.charge missing).2 = true) :
  0 < e.availableTiles ∧ (e.charge missing).1.availableTiles = e.availableTiles - 1
  := by
  rw [Entry.charge] at h ⊢
  by_cases htiles : e.availableTiles > 0
  · simp [htiles]
  · simp [htiles] at h

/-- An attempt takes at most what there is. -/
theorem availableTiles_charge (missing : Bool) (h : 0 ≤ e.availableTiles) :
  0 ≤ (e.charge missing).1.availableTiles ∧
    (e.charge missing).1.availableTiles ≤ e.availableTiles
  := by
  rw [Entry.charge]
  by_cases htiles : e.availableTiles > 0
  · simp only [htiles, if_true]
    omega
  · simp [htiles, h]

/-- A bucket that is filled has the tokens for which there is room. -/
theorem availableTiles_topUp {tiles renders : ℤ} (h : 0 ≤ e.availableTiles) (htiles : 0 ≤ tiles)
    (hlt : e.availableTiles + tiles < 2 ^ 31) :
  (e.topUp conf tiles renders).availableTiles = min conf.tileSize (e.availableTiles + tiles)
  := topUp_eq_min h htiles hlt

/-- What a fill-up does to a bucket, when the number of tokens fits: it adds the tokens for the
time that has passed. -/
theorem fillup_spec (i : ℕ) (hrate : 0 < conf.tileRate) (hlast : p.lastTileFillup ≤ now)
    (hnonneg : 0 ≤ (p.users i).availableTiles) (hle : (p.users i).availableTiles ≤ conf.tileSize)
    (hlt : now - p.lastTileFillup < conf.tileRate * (2 ^ 31 - conf.tileSize)) :
  ∃ n, 0 ≤ n ∧ (p.fillup conf now).lastTileFillup = p.lastTileFillup + conf.tileRate * n ∧
    (p.fillup conf now).lastTileFillup ≤ now ∧
    ((p.fillup conf now).users i).ipAddr = (p.users i).ipAddr ∧
    ((p.fillup conf now).users i).availableTiles =
      min conf.tileSize ((p.users i).availableTiles + n)
  := by
  have hsub : 0 ≤ now - p.lastTileFillup := Int.sub_nonneg_of_le hlast
  have hn : 0 ≤ (now - p.lastTileFillup) / conf.tileRate := Int.ediv_nonneg hsub hrate.le
  have hlt' := ediv_lt_of_elapsed hrate hlt
  have htoInt := toInt_tdiv hrate hsub (by omega)
  refine ⟨(now - p.lastTileFillup) / conf.tileRate, hn, ?_, ?_, ?_, ?_⟩
  · rw [Pool.fillup, htoInt]
  · rw [Pool.fillup, htoInt]
    apply fillup_le now hrate
  · rw [Pool.fillup]
    dsimp only
    split_ifs <;> rfl
  · rw [Pool.fillup, htoInt]
    dsimp only
    split_ifs with hfill
    · apply availableTiles_topUp hnonneg hn
      omega
    · omega

/-! ### The bound for one client -/

namespace State

/-- A request of the client would be granted in time: its bucket is empty, or holds no more
than it may hold together with the time that has not been credited yet.  A new bucket is made
only when all the time has been credited. -/
def inTime (conf : Conf) (client : Address) (s : State) : Bool :=
  let e := s.pool.users client.hashkey
  if e.ipAddr = client.ip then
    e.availableTiles ≤ 0 ||
      conf.tileRate * e.availableTiles + (s.clock - s.pool.lastTileFillup) ≤
        conf.tileRate * (conf.tileSize + 1)
  else s.clock = s.pool.lastTileFillup

/-- The number of tokens for the time that has not been credited yet fits into an `int`. -/
def topUpFits (conf : Conf) (s : State) : Bool :=
  s.clock - s.pool.lastTileFillup < conf.tileRate * (2 ^ 31 - conf.tileSize)

/-- The condition on an action under which the client is throttled: no other client uses its
place in the table, it makes no call during a fill-up, and takes tokens in time. -/
def fair (conf : Conf) (client : Address) (s : State) : Action → Bool
  | .tick _ => true
  | .enter _ none _ => true
  | .enter _ (some address) _ =>
      if address = client then !s.pool.locked else address.hashkey ≠ client.hashkey
  | .lock i =>
      s.topUpFits conf &&
        match s.phase i with
        | .waiting call => call.address ≠ client || s.inTime conf client
        | _ => true
  | .endFillup i =>
      match s.phase i with
      | .filling call _ => call.address ≠ client || s.inTime conf client
      | _ => true

/-- The number of requests of the client that were granted in a window of time. -/
def granted (client : Address) (first last : ℤ) (s : State) : ℕ :=
  s.returned.countP fun r => r.address = some client && r.allowed && first ≤ r.time &&
    r.time ≤ last

/-- The bucket in the place of the client. -/
def bucket (client : Address) (s : State) : Entry := s.pool.users client.hashkey

end State

open State TokenBucket

/-- The bucket that is put into the place of the client. -/
theorem bucket_setEntry {client : Address} {s : State} :
  (s.setPool (s.pool.setEntry client.hashkey e)).bucket client = e
  := Function.update_self _ _ _

/-- A token is taken in time. -/
theorem le_of_inTime {client : Address} {s : State} (h : s.inTime conf client = true)
    (howned : (s.bucket client).ipAddr = client.ip)
    (hpos : 0 < (s.bucket client).availableTiles) :
  conf.tileRate * (s.bucket client).availableTiles + (s.clock - s.pool.lastTileFillup) ≤
    conf.tileRate * (conf.tileSize + 1)
  := by
  rw [bucket] at howned hpos ⊢
  simpa [inTime, howned, hpos.not_ge] using h

/-- A bucket is made in time. -/
theorem eq_of_inTime {client : Address} {s : State} (h : s.inTime conf client = true)
    (hother : (s.bucket client).ipAddr ≠ client.ip) :
  s.clock = s.pool.lastTileFillup
  := by
  rw [bucket] at hother
  simpa [inTime, hother] using h

/-- What a process may be in: a call of the client, whose bucket is its own once a token has
been asked for, or a call of a client with another place. -/
def Admitted (client : Address) (e : Entry) : Phase → Prop
  | .idle => True
  | .waiting call => call.address = client ∨ call.address.hashkey ≠ client.hashkey
  | .filling call _ | .penalised call _ =>
      call.address = client ∧ e.ipAddr = client.ip ∨
        call.address.hashkey ≠ client.hashkey

/-- What a process may be in depends on the owner of the bucket only. -/
theorem Admitted.of_ipAddr {client : Address} {e' : Entry} {phase : Phase}
    (hip : e'.ipAddr = e.ipAddr) (h : Admitted client e phase) :
  Admitted client e' phase
  := by
  cases phase with
  | idle => trivial
  | waiting call => apply h
  | filling call j | penalised call j =>
      apply Or.imp_left _ h
      rintro ⟨hcall, howned⟩
      exact ⟨hcall, hip.trans howned⟩

/-- A process may be in what it is in when the client gets the bucket. -/
theorem Admitted.of_client {client : Address} {e' : Entry} {phase : Phase}
    (hip : e'.ipAddr = client.ip) (h : Admitted client e phase) :
  Admitted client e' phase
  := by
  cases phase with
  | idle => trivial
  | waiting call => apply h
  | filling call j | penalised call j =>
      apply Or.imp_left _ h
      rintro ⟨hcall, -⟩
      exact ⟨hcall, hip⟩

/-- One process goes on to something that it may be in. -/
theorem admitted_update {client : Address} {phases : ℕ → Phase} {i : ℕ} {phase : Phase}
    (h : ∀ k, Admitted client e (phases k)) (hphase : Admitted client e phase) (k : ℕ) :
  Admitted client e (Function.update phases i phase k)
  := by
  rcases eq_or_ne k i with rfl | hne
  · rw [Function.update_self]
    apply hphase
  · rw [Function.update_of_ne hne]
    apply h

/-- The requests of a client in the window from `first` to `last` are accounted for: while the
window is open by the tokens that are left, and later by the length of the window. -/
structure Accounted (conf : Conf) (client : Address) (first last : ℤ) (s : State) : Prop where
  admitted : ∀ i, Admitted client (s.bucket client) (s.phase i)
  whitelist : s.pool.whitelist = fun _ => 0
  fillup_le : s.pool.lastTileFillup ≤ s.clock
  nonneg : 0 ≤ (s.bucket client).availableTiles
  le_size : (s.bucket client).availableTiles ≤ conf.tileSize
  running : s.clock ≤ last → s.granted client first last = 0 ∨
    (s.bucket client).ipAddr = client.ip ∧
      Within conf.tileSize conf.tileRate first (s.granted client first last)
        (s.bucket client).availableTiles s.pool.lastTileFillup
  past : last < s.clock → conf.tileRate * s.granted client first last ≤
    conf.tileRate * (conf.tileSize + 1) + (last - first)

namespace Accounted

variable {client : Address} {first last : ℤ} {s : State} {i : ℕ} {call : Call} {j : ℕ}

/-- The bucket in the place of the client is replaced by one of the same client with fewer
tokens. -/
theorem setEntry (h : Accounted conf client first last s) (hrate : 0 ≤ conf.tileRate)
    (hip : e.ipAddr = (s.bucket client).ipAddr) (hnonneg : 0 ≤ e.availableTiles)
    (hle : e.availableTiles ≤ (s.bucket client).availableTiles) :
  Accounted conf client first last (s.setPool (s.pool.setEntry client.hashkey e))
  := by
  constructor
  case admitted =>
    intro i
    rw [bucket_setEntry]
    apply (h.admitted i).of_ipAddr hip
  case whitelist => apply h.whitelist
  case fillup_le => apply h.fillup_le
  case nonneg =>
    rw [bucket_setEntry]
    apply hnonneg
  case le_size =>
    rw [bucket_setEntry]
    apply hle.trans h.le_size
  case running =>
    intro hclock
    rw [bucket_setEntry, hip]
    apply (h.running hclock).imp_right
    rintro ⟨howned, hwithin⟩
    exact ⟨howned, hwithin.mono hrate hle⟩
  case past => apply h.past

/-- The bucket in another place is replaced. -/
theorem setEntry_of_ne (h : Accounted conf client first last s) {k : ℕ}
    (hne : k ≠ client.hashkey) (e : Entry) :
  Accounted conf client first last (s.setPool (s.pool.setEntry k e))
  := by
  have hbucket : (s.setPool (s.pool.setEntry k e)).bucket client = s.bucket client :=
    Function.update_of_ne hne.symm _ _
  constructor
  case admitted =>
    intro i
    rw [hbucket]
    apply h.admitted
  case whitelist => apply h.whitelist
  case fillup_le => apply h.fillup_le
  case nonneg =>
    rw [hbucket]
    apply h.nonneg
  case le_size =>
    rw [hbucket]
    apply h.le_size
  case running =>
    rw [hbucket]
    apply h.running
  case past => apply h.past

theorem setMutex (h : Accounted conf client first last s) (mutex : Bool) :
  Accounted conf client first last (s.setMutex mutex)
  := ⟨h.admitted, h.whitelist, h.fillup_le, h.nonneg, h.le_size, h.running, h.past⟩

theorem unlock (h : Accounted conf client first last s) :
  Accounted conf client first last (s.setPool { s.pool with locked := false })
  := ⟨h.admitted, h.whitelist, h.fillup_le, h.nonneg, h.le_size, h.running, h.past⟩

theorem setPhase (h : Accounted conf client first last s) {phase : Phase}
    (hphase : Admitted client (s.bucket client) phase) :
  Accounted conf client first last (s.setPhase i phase)
  := by
  refine ⟨?_, h.whitelist, h.fillup_le, h.nonneg, h.le_size, h.running, h.past⟩
  apply admitted_update h.admitted hphase

/-- A result for another client, or one that is not granted. -/
theorem result (h : Accounted conf client first last s) {address : Option Address}
    {allowed : Bool} (hother : address ≠ some client ∨ allowed = false) :
  Accounted conf client first last (s.result i address allowed)
  := by
  have hphase : Accounted conf client first last (s.setPhase i .idle) := h.setPhase trivial
  have hgranted : (s.result i address allowed).granted client first last =
      s.granted client first last := by
    rw [granted, State.result, List.countP_append, List.countP_singleton, if_neg]
    · rfl
    · rcases hother with hne | hnot
      · simp [hne]
      · simp [hnot]
  refine ⟨hphase.admitted, h.whitelist, h.fillup_le, h.nonneg, h.le_size, ?_, ?_⟩
  · rw [hgranted]
    apply h.running
  · rw [hgranted]
    apply h.past

/-- The requests of the client in the window are bounded, whether the window is open or not. -/
theorem granted_le (h : Accounted conf client first last s) (hrate : 0 ≤ conf.tileRate)
    (hsize : 0 ≤ conf.tileSize) (hwindow : first ≤ last) :
  conf.tileRate * s.granted client first last ≤
    conf.tileRate * (conf.tileSize + 1) + (last - first)
  := by
  rcases lt_or_ge last s.clock with hpast | hopen
  · apply h.past hpast
  · rcases h.running hopen with hzero | ⟨-, hwithin⟩
    · rw [hzero, Nat.cast_zero, mul_zero]
      have hfull : 0 ≤ conf.tileRate * (conf.tileSize + 1) := by positivity
      omega
    · apply hwithin.granted_le hrate h.nonneg (h.fillup_le.trans hopen)

/-- Time passes. -/
theorem tick (h : Accounted conf client first last s) (hrate : 0 ≤ conf.tileRate)
    (hsize : 0 ≤ conf.tileSize) (hwindow : first ≤ last) (d : ℕ) :
  Accounted conf client first last { s with clock := s.clock + d }
  := by
  constructor
  case admitted => apply h.admitted
  case whitelist => apply h.whitelist
  case fillup_le =>
    apply h.fillup_le.trans
    simp
  case nonneg => apply h.nonneg
  case le_size => apply h.le_size
  case running =>
    intro hclock
    apply h.running
    simp only at hclock
    omega
  case past =>
    intro _
    apply h.granted_le hrate hsize hwindow

/-- All buckets are filled. -/
theorem fillup (h : Accounted conf client first last s) (hrate : 0 < conf.tileRate)
    (hfits : s.topUpFits conf = true) :
  Accounted conf client first last (s.setPool (s.pool.fillup conf s.clock))
  := by
  obtain ⟨n, hn, hlast, hle, hip, htiles⟩ := fillup_spec client.hashkey hrate h.fillup_le h.nonneg
    h.le_size (of_decide_eq_true hfits)
  constructor
  case admitted =>
    intro i
    apply (h.admitted i).of_ipAddr hip
  case whitelist => apply h.whitelist
  case fillup_le => apply hle
  case nonneg =>
    have hnonneg := h.nonneg
    have hsize := h.le_size
    rw [bucket] at hnonneg hsize
    rw [bucket, State.setPool, htiles]
    omega
  case le_size =>
    rw [bucket, State.setPool, htiles]
    apply min_le_left
  case running =>
    intro hclock
    apply (h.running hclock).imp_right
    rintro ⟨howned, hwithin⟩
    rw [bucket, State.setPool, hip, htiles, hlast]
    exact ⟨howned, hwithin.refill hrate.le n⟩
  case past => apply h.past

/-- A request of the client is granted, and leaves the given bucket. -/
theorem grant (h : Accounted conf client first last s) (hrate : 0 ≤ conf.tileRate)
    (hip : e.ipAddr = client.ip) (hnonneg : 0 ≤ e.availableTiles)
    (hsize : e.availableTiles ≤ conf.tileSize)
    (hfirst : first ≤ s.clock →
      Within conf.tileSize conf.tileRate first 1 e.availableTiles s.pool.lastTileFillup)
    (hnext : (s.bucket client).ipAddr = client.ip →
      e.availableTiles = (s.bucket client).availableTiles - 1) :
  Accounted conf client first last
    (((s.setPool (s.pool.setEntry client.hashkey e)).setMutex false).result i (some client) true)
  := by
  have hbucket : (((s.setPool (s.pool.setEntry client.hashkey e)).setMutex false).result i
      (some client) true).bucket client = e :=
    bucket_setEntry
  have hgranted : (((s.setPool (s.pool.setEntry client.hashkey e)).setMutex false).result i
      (some client) true).granted client first last =
        s.granted client first last + if first ≤ s.clock ∧ s.clock ≤ last then 1 else 0 := by
    rw [granted, State.result, List.countP_append, List.countP_singleton]
    simp only [decide_true, Bool.true_and, Bool.and_eq_true, decide_eq_true_eq]
    rfl
  constructor
  case admitted =>
    rw [hbucket]
    apply admitted_update (fun k => (h.admitted k).of_client hip)
    trivial
  case whitelist => apply h.whitelist
  case fillup_le => apply h.fillup_le
  case nonneg =>
    rw [hbucket]
    apply hnonneg
  case le_size =>
    rw [hbucket]
    apply hsize
  case running =>
    intro hclock
    rw [hbucket, hgranted]
    by_cases hopen : first ≤ s.clock
    · right
      use hip
      rw [if_pos ⟨hopen, hclock⟩, Nat.cast_add, Nat.cast_one]
      rcases h.running hclock with hzero | ⟨howned, hwithin⟩
      · rw [hzero, Nat.cast_zero, zero_add]
        apply hfirst hopen
      · rw [hnext howned]
        apply hwithin.take
    · rw [if_neg fun hwindow => hopen hwindow.1, Nat.add_zero]
      apply (h.running hclock).imp_right
      rintro ⟨howned, hwithin⟩
      use hip
      apply hwithin.mono hrate
      rw [hnext howned]
      omega
  case past =>
    intro hclock
    rw [hgranted, if_neg fun hwindow => hclock.not_ge hwindow.2, Nat.add_zero]
    apply h.past hclock

/-- A fill-up starts. -/
theorem startFillup (h : Accounted conf client first last s) (hrate : 0 < conf.tileRate)
    (hfits : s.topUpFits conf = true)
    (hcall : call.address = client ∧ (s.bucket client).ipAddr = client.ip ∨
      call.address.hashkey ≠ client.hashkey) :
  Accounted conf client first last (s.startFillup conf i call j)
  := by
  have hfillup := h.fillup hrate hfits
  obtain ⟨-, -, -, -, hip, -⟩ := fillup_spec client.hashkey hrate h.fillup_le h.nonneg h.le_size
    (of_decide_eq_true hfits)
  apply (hfillup.setMutex true).setPhase
  apply Admitted.of_ipAddr (e := s.bucket client) hip
  apply hcall

/-- An attempt of the client. -/
theorem attempt (h : Accounted conf client first last s) (hrate : 0 < conf.tileRate)
    (hfits : j = 0 → s.topUpFits conf = true) (hcall : call.address = client)
    (howned : (s.bucket client).ipAddr = client.ip) (htime : s.inTime conf client = true) :
  Accounted conf client first last (s.attempt conf i call j)
  := by
  subst hcall
  obtain ⟨hnonneg, hle⟩ := availableTiles_charge call.missing h.nonneg
  have hcharged := h.setEntry hrate.le (ipAddr_charge call.missing) hnonneg hle
  rw [State.attempt]
  dsimp only
  split_ifs with hallowed hj
  · obtain ⟨hpos, htiles⟩ := availableTiles_of_charge hallowed
    apply h.grant hrate.le (e := ((s.bucket call.address).charge call.missing).1) howned hnonneg
      (hle.trans h.le_size)
    · intro hfirst
      rw [bucket, htiles]
      apply within_first hfirst (le_of_inTime htime howned hpos)
    · intro _
      apply htiles
  · apply (hcharged.setMutex false).setPhase
    left
    exact ⟨rfl, bucket_setEntry.symm ▸ howned⟩
  · apply hcharged.startFillup hrate (hfits (Nat.eq_zero_of_not_pos hj))
    left
    exact ⟨rfl, bucket_setEntry.symm ▸ howned⟩

/-- An attempt of a client with another place. -/
theorem attempt_of_ne (h : Accounted conf client first last s) (hrate : 0 < conf.tileRate)
    (hfits : j = 0 → s.topUpFits conf = true) (hne : call.address.hashkey ≠ client.hashkey) :
  Accounted conf client first last (s.attempt conf i call j)
  := by
  have hcharged := h.setEntry_of_ne hne
    ((s.pool.users call.address.hashkey).charge call.missing).1
  rw [State.attempt]
  dsimp only
  split_ifs with hallowed hj
  · apply (hcharged.setMutex false).result
    left
    intro heq
    apply hne
    rw [Option.some.inj heq]
  · apply (hcharged.setMutex false).setPhase
    right
    apply hne
  · apply hcharged.startFillup hrate (hfits (Nat.eq_zero_of_not_pos hj)) (Or.inr hne)

/-- A call that has the mutex for the first time. -/
theorem account (h : Accounted conf client first last s) (hrate : 0 < conf.tileRate)
    (hsize : 0 ≤ conf.tileSize) (hfits : s.topUpFits conf = true)
    (hcall : call.address = client ∨ call.address.hashkey ≠ client.hashkey)
    (htime : call.address = client → s.inTime conf client = true) :
  Accounted conf client first last (s.account conf i call)
  := by
  rw [State.account]
  split_ifs with howned
  · rcases hcall with rfl | hne
    · apply h.attempt hrate (fun _ => hfits) rfl howned (htime rfl)
    · apply h.attempt_of_ne hrate (fun _ => hfits) hne
  · rcases hcall with rfl | hne
    · apply h.grant hrate.le rfl hsize le_rfl
      · intro hfirst
        apply within_open
        rw [← eq_of_inTime (htime rfl) howned]
        apply hfirst
      · intro howned'
        contradiction
    · apply ((h.setEntry_of_ne hne _).setMutex false).result
      left
      intro heq
      apply hne
      rw [Option.some.inj heq]

/-- The end of a fill-up. -/
theorem endFillup (h : Accounted conf client first last s) (hrate : 0 < conf.tileRate)
    (hcall : call.address = client ∧ (s.bucket client).ipAddr = client.ip ∨
      call.address.hashkey ≠ client.hashkey)
    (htime : call.address = client → s.inTime conf client = true) :
  Accounted conf client first last (s.endFillup conf i call j)
  := by
  rw [State.endFillup]
  dsimp only
  split_ifs
  · rcases hcall with ⟨rfl, howned⟩ | hne
    · apply h.unlock.attempt hrate (by simp) rfl howned (htime rfl)
    · apply h.unlock.attempt_of_ne hrate (by simp) hne
  · apply (h.unlock.setMutex false).result (Or.inr rfl)

/-- A call is made. -/
theorem enter (h : Accounted conf client first last s) {missing : Bool}
    {address : Option Address} (hclient : client ≠ .v4 0)
    (hfair : ∀ a ∈ address, if a = client then s.pool.locked = false
      else a.hashkey ≠ client.hashkey) :
  Accounted conf client first last (s.enter i missing address)
  := by
  cases address with
  | none => apply h.result (Or.inr rfl)
  | some address =>
      have hfair' := hfair address rfl
      rw [State.enter]
      by_cases hself : address = client
      · subst hself
        rw [if_pos rfl] at hfair'
        have hwhitelisted : s.whitelisted address = false := by
          cases address with
          | v4 sAddr =>
              rw [State.whitelisted, h.whitelist]
              simpa [eq_comm] using hclient
          | v6 ip => rfl
        rw [hwhitelisted, hfair', if_neg (by simp)]
        apply h.setPhase
        left
        rfl
      · rw [if_neg hself] at hfair'
        split_ifs
        · apply h.result
          left
          intro heq
          apply hself (Option.some.inj heq)
        · apply h.setPhase
          right
          apply hfair'

/-- Every action that meets the condition keeps the account. -/
theorem step (h : Accounted conf client first last s) (hrate : 0 < conf.tileRate)
    (hsize : 0 ≤ conf.tileSize) (hwindow : first ≤ last) (hclient : client ≠ .v4 0)
    {a : Action} {s' : State} (hfair : s.fair conf client a = true)
    (hstep : s.step conf a = some s') :
  Accounted conf client first last s'
  := by
  cases a with
  | tick d =>
      obtain rfl := Option.some.inj hstep
      apply h.tick hrate.le hsize hwindow
  | enter i address missing =>
      rw [State.step] at hstep
      split_ifs at hstep
      obtain rfl := Option.some.inj hstep
      apply h.enter hclient
      intro address' haddress'
      subst haddress'
      rw [fair] at hfair
      split_ifs at hfair ⊢
      · simpa using hfair
      · simpa using hfair
  | lock i =>
      rw [State.step] at hstep
      rw [fair, Bool.and_eq_true] at hfair
      obtain ⟨hfits, htime⟩ := hfair
      have hadmitted := h.admitted i
      split_ifs at hstep
      split at hstep
      · rename_i call hphase
        obtain rfl := Option.some.inj hstep
        rw [hphase] at hadmitted htime
        apply h.account hrate hsize hfits hadmitted
        intro hcall
        simpa [hcall] using htime
      · rename_i call j hphase
        obtain rfl := Option.some.inj hstep
        rw [hphase] at hadmitted
        apply h.startFillup hrate hfits hadmitted
      · contradiction
  | endFillup i =>
      rw [State.step] at hstep
      rw [fair] at hfair
      have hadmitted := h.admitted i
      split at hstep
      · rename_i call j hphase
        obtain rfl := Option.some.inj hstep
        rw [hphase] at hadmitted hfair
        apply h.endFillup hrate hadmitted
        intro hcall
        simpa [hcall] using hfair
      · contradiction

end Accounted

/-- The client is accounted for at the start. -/
theorem accounted_init {client : Address} {first last start : ℤ} (hsize : 0 ≤ conf.tileSize)
    (hrate : 0 ≤ conf.tileRate) (hwindow : first ≤ last) :
  Accounted conf client first last (init start)
  := by
  constructor
  case admitted => exact fun _ => trivial
  case whitelist => rfl
  case fillup_le => apply le_rfl
  case nonneg => apply le_rfl
  case le_size => apply hsize
  case running => exact fun _ => Or.inl rfl
  case past =>
    intro _
    have hfull : 0 ≤ conf.tileRate * (conf.tileSize + 1) := by positivity
    simp only [granted, init, List.countP_nil, Nat.cast_zero, mul_zero]
    omega

/-- In every run whose actions meet the condition, the number of requests of a client that are
granted in a window of time is bounded by the size of its bucket, one more, and the tokens for
the length of the window. -/
theorem granted_bounded {client : Address} {start : ℤ} {s : State} (hsize : 1 ≤ conf.tileSize)
    (hrate : 1 ≤ conf.tileRate) (hclient : client ≠ .v4 0)
    (h : Reach (step conf) (fun s a => s.fair conf client a = true) (init start) s)
    {first last : ℤ} (hwindow : first ≤ last) :
  conf.tileRate * s.granted client first last ≤
    conf.tileRate * (conf.tileSize + 1) + (last - first)
  := by
  have hrate' : 0 < conf.tileRate := hrate
  have hsize' : 0 ≤ conf.tileSize := zero_le_one.trans hsize
  have hacc : Accounted conf client first last s := by
    apply h.invariant (I := Accounted conf client first last)
    · apply accounted_init hsize' hrate'.le hwindow
    · intro s a s' hs hfair hstep
      apply hs.step hrate' hsize' hwindow hclient hfair hstep
  apply hacc.granted_le hrate'.le hsize' hwindow

/-- Buckets of one token, and a token every microsecond. -/
def sampleConf : Conf := ⟨1, 1, 1, 1⟩

/-- A client. -/
def sampleClient : Address := .v4 1

/-- A client with the same place in the table. -/
def sampleOther : Address := .v4 100058

/-- A process calls the function for a client and gets the mutex. -/
def sampleCall (client : Address) : List Action :=
  [.enter 0 client false, .lock 0]

/-- A client gets a bucket, takes the token from it, and has to wait for the next one. -/
def sampleRun : Option State :=
  Transition.run (step sampleConf) (fair sampleConf sampleClient) (init 0)
    (sampleCall sampleClient ++ sampleCall sampleClient ++ sampleCall sampleClient ++
      [.endFillup 0, .tick 1, .lock 0, .endFillup 0])

theorem granted_bounded_sampleRun :
  ∃ s, sampleRun = some s ∧ s.granted sampleClient 0 1 = 3 ∧
    sampleConf.tileRate * s.granted sampleClient 0 1 ≤
      sampleConf.tileRate * (sampleConf.tileSize + 1) + (1 - 0)
  := by
  have hrun : sampleRun.map (fun s => s.granted sampleClient 0 1) = some 3 := by
    decide +kernel
  obtain ⟨s, hs, hgranted⟩ := Option.map_eq_some_iff.mp hrun
  have hreach := reach_of_run hs fun _ _ hfair => hfair
  have hsize : 1 ≤ sampleConf.tileSize := by decide
  have hrate : 1 ≤ sampleConf.tileRate := by decide
  have hclient : sampleClient ≠ .v4 0 := by decide
  exact ⟨s, hs, hgranted, granted_bounded hsize hrate hclient hreach zero_le_one⟩

/-- Three requests are granted at one moment, although the bucket has one token: a client that
comes after some time gets a full bucket without taking a token from it, takes the token, and
then gets another one for the time before its first request.  The same happens when another
client with the same place makes requests as well, and when a fill-up is going on. -/
theorem granted_unbounded :
  (∃ s, Transition.run (step sampleConf) (fun _ _ => true) (init 0)
      ([.tick 5] ++ sampleCall sampleClient ++ sampleCall sampleClient ++
        sampleCall sampleClient ++ [.endFillup 0]) = some s ∧
      s.granted sampleClient 5 5 = 3) ∧
    (∃ s, Transition.run (step sampleConf) (fun _ _ => true) (init 0)
      (sampleCall sampleClient ++ sampleCall sampleOther ++ sampleCall sampleClient ++
        sampleCall sampleOther ++ sampleCall sampleClient) = some s ∧
      s.granted sampleClient 0 0 = 3) ∧
    (∃ s, Transition.run (step sampleConf) (fun _ _ => true) (init 0)
      ([.tick 5] ++ sampleCall (.v6 (0, 0, 0, 0)) ++
        [.enter 1 sampleClient false, .enter 1 sampleClient false,
          .enter 1 sampleClient false]) = some s ∧
      s.granted sampleClient 5 5 = 3) ∧
    sampleConf.tileRate * (sampleConf.tileSize + 1) + (5 - 5) < sampleConf.tileRate * 3
  := by
  refine ⟨?_, ?_, ?_, by decide⟩
  · apply Option.map_eq_some_iff.mp
    decide +kernel
  · apply Option.map_eq_some_iff.mp
    decide +kernel
  · apply Option.map_eq_some_iff.mp
    decide +kernel

end DelayPool
