import Mathlib.Algebra.Order.BigOperators.Group.List
import ModTile.TileModule.DelayEvents

/-!
# The charges of the delay pool

The calls of `delay_allowed` as a ledger: for every call that is going on, the buckets as its
attempts to take tokens found them, and for every call that has returned, a bill with all its
attempts.

A call should take one token for a tile, and one for a rendering if the tile is missing, from the
bucket of its client if it is granted, and nothing if it is refused.  An attempt takes the token
for a tile although there is none for a rendering, and it does not look again at the owner of the
bucket after the client was made to wait.  Also, a call is granted without an attempt while the
buckets are filled.  `Bill.proper_iff_fair` says that nothing else can go wrong.
-/

namespace DelayPool

open Transition State

/-- The tokens for tiles and for renderings that an attempt takes from a bucket. -/
def Entry.taken (e : Entry) (missing : Bool) : ℤ × ℤ :=
  (e.availableTiles - (e.charge missing).1.availableTiles,
    e.availableRenderReq - (e.charge missing).1.availableRenderReq)

/-- A call that has returned: whose call it was and what for, whether the client had a bucket,
whether the call was granted, and the buckets as the attempts found them. -/
structure Bill where
  address : Option Address
  missing : Bool
  existing : Bool
  allowed : Bool
  attempts : List Entry
  deriving DecidableEq

namespace Bill

/-- The bucket is that of the client. -/
def owns (b : Bill) (e : Entry) : Bool := b.address.any fun address => e.ipAddr = address.ip

/-- The tokens for tiles that were taken from the bucket of the client. -/
def tiles (b : Bill) : ℤ :=
  ((b.attempts.filter b.owns).map fun e => (e.taken b.missing).1).sum

/-- The tokens for renderings that were taken from the bucket of the client. -/
def renders (b : Bill) : ℤ :=
  ((b.attempts.filter b.owns).map fun e => (e.taken b.missing).2).sum

/-- The call has taken what it should: the tokens that it asked for from the bucket of its
client if it was granted, nothing if it was refused, and nothing from another bucket. -/
def Proper (b : Bill) : Prop :=
  (b.allowed = true → b.existing = true →
      b.tiles = 1 ∧ b.renders = if b.missing then 1 else 0) ∧
    (b.allowed = false → ∀ e ∈ b.attempts, e.taken b.missing = (0, 0)) ∧
    ∀ e ∈ b.attempts, b.owns e = false → e.taken b.missing = (0, 0)

/-- What the call found was as it should be: it has made an attempt if there was a bucket, and
every attempt has found none of the tokens that it asked for, or all of them in the bucket of
the client. -/
def Fair (b : Bill) : Prop :=
  (b.allowed = true → b.existing = true → b.attempts ≠ []) ∧
    ∀ e ∈ b.attempts,
      e.availableTiles ≤ 0 ∧ (b.missing = true → e.availableRenderReq ≤ 0) ∨
        b.owns e = true ∧ 0 < e.availableTiles ∧ (b.missing = true → 0 < e.availableRenderReq)

/-- If there were attempts, there was a bucket; the last one decided about the call, and those
before it have failed. -/
def Regular (b : Bill) : Prop :=
  ∀ es e, b.attempts = es ++ [e] →
    b.existing = true ∧ (e.charge b.missing).2 = b.allowed ∧
      ∀ e' ∈ es, (e'.charge b.missing).2 = false

end Bill

/-- A state, the attempts of the calls that are going on, and the bills. -/
structure Ledger where
  state : State
  attempts : ℕ → List Entry
  bills : List Bill

/-- The process that an event is about. -/
def Event.process : Event → Option ℕ
  | .act (.tick _) => none
  | .act (.enter i _ _) | .act (.lock i) | .act (.endFillup i) | .giveUp i => some i

/-- The bucket that an attempt finds in an event. -/
def State.found (s : State) (ev : Event) : List Entry :=
  match s.attempting ev with
  | none => []
  | some call => [s.pool.users call.address.hashkey]

/-- The client of a process in an event, and whether the tile is missing. -/
def State.caller (s : State) (i : ℕ) : Event → Option Address × Bool
  | .act (.enter _ address missing) => (address, missing)
  | _ =>
      match (s.phase i).call with
      | none => (none, false)
      | some call => (call.address, call.missing)

namespace Ledger

variable (conf : Conf)

def init (start : ℤ) : Ledger := ⟨State.init start, fun _ => [], []⟩

/-- The bill for the call of a process that has returned.  The client had a bucket if an attempt
was made, or if there is one now. -/
def bill (l : Ledger) (ev : Event) (i : ℕ) (s : State) : Bill :=
  let (address, missing) := l.state.caller i ev
  let attempts := l.attempts i ++ l.state.found ev
  { address := address
    missing := missing
    existing := attempts ≠ [] || address.any fun a => (l.state.pool.users a.hashkey).ipAddr = a.ip
    allowed := s.returned.getLast?.any Result.allowed
    attempts := attempts }

/-- The ledger after an event that leads to the given state. -/
def note (l : Ledger) (ev : Event) (s : State) : Ledger :=
  match ev.process with
  | none => { l with state := s }
  | some i =>
      if s.phase i = .idle then
        ⟨s, Function.update l.attempts i [], l.bills ++ [l.bill ev i s]⟩
      else
        ⟨s, Function.update l.attempts i (l.attempts i ++ l.state.found ev), l.bills⟩

/-- The ledger after an event, if it is possible. -/
def next (l : Ledger) (ev : Event) : Option Ledger :=
  (l.state.next conf ev).map fun s => l.note ev s

end Ledger

variable {conf : Conf} {e : Entry} {b : Bill} {l l' : Ledger} {s s' : State} {ev : Event}
  {i j : ℕ} {call : Call} {missing : Bool} {start : ℤ}

/-! ### One attempt -/

/-- An attempt finds the tokens if there is one of each kind that it asks for. -/
theorem charge_eq_true_iff :
  (e.charge missing).2 = true ↔
    0 < e.availableTiles ∧ (missing = true → 0 < e.availableRenderReq)
  := by
  rw [Entry.charge]
  cases missing with
  | false => by_cases htiles : e.availableTiles > 0 <;> simp [htiles]
  | true =>
      by_cases htiles : e.availableTiles > 0 <;>
        by_cases hrenders : e.availableRenderReq > 0 <;> simp [htiles, hrenders]

/-- What an attempt takes. -/
theorem taken_eq :
  e.taken missing = (if 0 < e.availableTiles then 1 else 0,
    if missing = true ∧ 0 < e.availableRenderReq then 1 else 0)
  := by
  rw [Entry.taken, Entry.charge]
  cases missing with
  | false => by_cases htiles : e.availableTiles > 0 <;> simp [htiles]
  | true =>
      by_cases htiles : e.availableTiles > 0 <;>
        by_cases hrenders : e.availableRenderReq > 0 <;> simp [htiles, hrenders]

theorem taken_nonneg :
  0 ≤ (e.taken missing).1 ∧ 0 ≤ (e.taken missing).2
  := by
  rw [taken_eq]
  constructor
  · dsimp only
    split_ifs <;> simp
  · dsimp only
    split_ifs <;> simp

/-- An attempt that finds the tokens takes them. -/
theorem taken_of_charge (h : (e.charge missing).2 = true) :
  e.taken missing = (1, if missing then 1 else 0)
  := by
  obtain ⟨htiles, hrenders⟩ := charge_eq_true_iff.mp h
  rw [taken_eq, if_pos htiles]
  cases missing with
  | false => rfl
  | true => simp [hrenders rfl]

/-- An attempt takes nothing if there is nothing of what it asks for. -/
theorem taken_eq_zero_iff :
  e.taken missing = (0, 0) ↔
    e.availableTiles ≤ 0 ∧ (missing = true → e.availableRenderReq ≤ 0)
  := by
  rw [taken_eq, Prod.mk.injEq]
  simp

/-! ### One call -/

namespace Bill

/-- What the attempts of a call find is fair if each takes nothing, or all from the bucket of the
client. -/
theorem fair_iff :
  b.Fair ↔ (b.allowed = true → b.existing = true → b.attempts ≠ []) ∧
    ∀ e ∈ b.attempts, e.taken b.missing = (0, 0) ∨
      b.owns e = true ∧ (e.charge b.missing).2 = true
  := by
  simp only [Fair, taken_eq_zero_iff, charge_eq_true_iff]

/-- Nothing has been taken from the buckets of the client if the sums are zero. -/
theorem taken_of_sum {es : List Entry} (hfst : (es.map fun e => (e.taken missing).1).sum = 0)
    (hsnd : (es.map fun e => (e.taken missing).2).sum = 0) (he : e ∈ es) :
  e.taken missing = (0, 0)
  := by
  apply Prod.ext
  · apply List.all_zero_of_le_zero_le_of_sum_eq_zero _ hfst (List.mem_map_of_mem he)
    intro n hn
    obtain ⟨e', -, rfl⟩ := List.mem_map.mp hn
    apply taken_nonneg.1
  · apply List.all_zero_of_le_zero_le_of_sum_eq_zero _ hsnd (List.mem_map_of_mem he)
    intro n hn
    obtain ⟨e', -, rfl⟩ := List.mem_map.mp hn
    apply taken_nonneg.2

/-- The sums are zero if nothing has been taken. -/
theorem sum_of_taken {es : List Entry} (h : ∀ e ∈ es, e.taken missing = (0, 0)) :
  (es.map fun e => (e.taken missing).1).sum = 0 ∧ (es.map fun e => (e.taken missing).2).sum = 0
  := by
  constructor
  · apply List.sum_eq_zero
    intro n hn
    obtain ⟨e, he, rfl⟩ := List.mem_map.mp hn
    rw [h e he]
  · apply List.sum_eq_zero
    intro n hn
    obtain ⟨e, he, rfl⟩ := List.mem_map.mp hn
    rw [h e he]

/-- A call without attempts. -/
theorem proper_iff_of_nil (h : b.attempts = []) :
  b.Proper ↔ b.Fair
  := by
  simp [Proper, Fair, tiles, h]

/-- A call that is refused. -/
theorem proper_iff_of_refused (hallowed : b.allowed = false)
    (hfails : ∀ e ∈ b.attempts, (e.charge b.missing).2 = false) :
  b.Proper ↔ b.Fair
  := by
  rw [fair_iff, Proper, hallowed]
  constructor
  · rintro ⟨-, hnothing, -⟩
    exact ⟨by simp, fun e he => Or.inl (hnothing rfl e he)⟩
  · rintro ⟨-, hfair⟩
    have hnothing : ∀ e ∈ b.attempts, e.taken b.missing = (0, 0) := by
      intro e he
      rcases hfair e he with hzero | ⟨-, hcharge⟩
      · apply hzero
      · rw [hfails e he] at hcharge
        contradiction
    exact ⟨by simp, fun _ => hnothing, fun e he _ => hnothing e he⟩

/-- The tokens that a call has taken if the last attempt was in the bucket of the client. -/
theorem sums_append {es : List Entry} (h : b.attempts = es ++ [e]) (howns : b.owns e = true) :
  b.tiles = ((es.filter b.owns).map fun e => (e.taken b.missing).1).sum + (e.taken b.missing).1 ∧
    b.renders =
      ((es.filter b.owns).map fun e => (e.taken b.missing).2).sum + (e.taken b.missing).2
  := by
  constructor
  · simp [tiles, h, List.filter_append, howns]
  · simp [renders, h, List.filter_append, howns]

theorem mem_attempts_last {es : List Entry} (hattempts : b.attempts = es ++ [e]) :
  e ∈ b.attempts
  := by
  simp [hattempts]

/-- A call that is granted after an attempt and has taken what it should has found fair
buckets. -/
theorem fair_of_granted {es : List Entry} (hattempts : b.attempts = es ++ [e])
    (hexisting : b.existing = true) (hallowed : b.allowed = true)
    (hlast : (e.charge b.missing).2 = true) (h : b.Proper) :
  b.Fair
  := by
  obtain ⟨hgranted, -, hothers⟩ := h
  have hmem := mem_attempts_last hattempts
  have htaken := taken_of_charge hlast
  have howns : b.owns e = true := by
    by_contra hnot
    have hzero := hothers e hmem (Bool.eq_false_of_not_eq_true hnot)
    rw [htaken] at hzero
    simp at hzero
  obtain ⟨htiles, hrenders⟩ := hgranted hallowed hexisting
  obtain ⟨htiles', hrenders'⟩ := sums_append hattempts howns
  rw [htaken] at htiles' hrenders'
  rw [fair_iff]
  refine ⟨fun _ _ => List.ne_nil_of_mem hmem, ?_⟩
  intro e' he'
  have hmem' := he'
  rw [hattempts, List.mem_append, List.mem_singleton] at he'
  rcases he' with he' | rfl
  · left
    cases hown : b.owns e' with
    | false => apply hothers e' hmem' hown
    | true =>
        apply taken_of_sum _ _ (List.mem_filter.mpr ⟨he', hown⟩)
        · linarith
        · linarith
  · right
    exact ⟨howns, hlast⟩

/-- A call that is granted after an attempt and has found fair buckets has taken what it
should. -/
theorem proper_of_granted {es : List Entry} (hattempts : b.attempts = es ++ [e])
    (hallowed : b.allowed = true) (hlast : (e.charge b.missing).2 = true)
    (hfails : ∀ e' ∈ es, (e'.charge b.missing).2 = false) (h : b.Fair) :
  b.Proper
  := by
  obtain ⟨-, hfair⟩ := fair_iff.mp h
  have htaken := taken_of_charge hlast
  have hbefore : ∀ e' ∈ es, e'.taken b.missing = (0, 0) := by
    intro e' he'
    rcases hfair e' (by simp [hattempts, he']) with hzero | ⟨-, hcharge⟩
    · apply hzero
    · rw [hfails e' he'] at hcharge
      contradiction
  have howns : b.owns e = true := by
    rcases hfair e (mem_attempts_last hattempts) with hzero | ⟨howns, -⟩
    · rw [htaken] at hzero
      simp at hzero
    · apply howns
  obtain ⟨htiles, hrenders⟩ := sums_append hattempts howns
  obtain ⟨hzero, hzero'⟩ :=
    sum_of_taken fun e' he' => hbefore e' (List.mem_of_mem_filter he' (p := b.owns))
  refine ⟨?_, ?_, ?_⟩
  · intro _ _
    rw [htiles, hrenders, hzero, hzero', htaken, zero_add, zero_add]
    exact ⟨rfl, rfl⟩
  · intro hrefused
    rw [hallowed] at hrefused
    contradiction
  · intro e' he' hnot
    rw [hattempts, List.mem_append, List.mem_singleton] at he'
    rcases he' with he' | rfl
    · apply hbefore e' he'
    · rw [howns] at hnot
      contradiction

/-- A call has taken what it should exactly when what it found was fair. -/
theorem proper_iff_fair (h : b.Regular) :
  b.Proper ↔ b.Fair
  := by
  rcases List.eq_nil_or_concat b.attempts with hnil | ⟨es, e, hattempts⟩
  · apply proper_iff_of_nil hnil
  · rw [List.concat_eq_append] at hattempts
    obtain ⟨hexisting, hlast, hfails⟩ := h es e hattempts
    cases hallowed : b.allowed with
    | true =>
        rw [hallowed] at hlast
        constructor
        · apply fair_of_granted hattempts hexisting hallowed hlast
        · apply proper_of_granted hattempts hallowed hlast hfails
    | false =>
        apply proper_iff_of_refused hallowed
        intro e' he'
        rw [hattempts, List.mem_append, List.mem_singleton] at he'
        rcases he' with he' | rfl
        · apply hfails e' he'
        · rw [hlast, hallowed]

end Bill

/-! ### All calls -/

/-- The attempts of a call that is going on have all failed, and there are some once the call has
had the mutex. -/
def Going : Phase → List Entry → Prop
  | .idle, es | .waiting _, es => es = []
  | .filling call _, es | .penalised call _, es =>
      es ≠ [] ∧ ∀ e ∈ es, (e.charge call.missing).2 = false

/-- What holds of every ledger: the calls are in order, and there is a regular bill for every
result. -/
structure Ledger.Kept (l : Ledger) : Prop where
  going : ∀ i, Going (l.state.phase i) (l.attempts i)
  returned : (l.bills.map fun b => (b.address, b.allowed)) =
    l.state.returned.map fun r => (r.address, r.allowed)
  regular : ∀ b ∈ l.bills, b.Regular

namespace Ledger

theorem kept_init :
  (init start).Kept
  := ⟨fun _ => rfl, rfl, fun _ hb => absurd hb List.not_mem_nil⟩

/-- A bill whose attempts all failed. -/
theorem regular_of_fails (hexisting : b.attempts ≠ [] → b.existing = true)
    (hallowed : b.attempts ≠ [] → b.allowed = false)
    (hfails : ∀ e ∈ b.attempts, (e.charge b.missing).2 = false) :
  b.Regular
  := by
  intro es e hattempts
  have hne : b.attempts ≠ [] := by
    rw [hattempts]
    simp
  refine ⟨hexisting hne, ?_, ?_⟩
  · rw [hallowed hne]
    apply hfails
    simp [hattempts]
  · intro e' he'
    apply hfails
    simp [hattempts, he']

/-- A bill whose last attempt found the tokens. -/
theorem regular_of_granted {es : List Entry} (hattempts : b.attempts = es ++ [e])
    (hexisting : b.existing = true) (hlast : (e.charge b.missing).2 = b.allowed)
    (hfails : ∀ e' ∈ es, (e'.charge b.missing).2 = false) :
  b.Regular
  := by
  intro es' e' heq
  rw [hattempts] at heq
  obtain ⟨rfl, hsingleton⟩ := List.append_inj' heq rfl
  obtain rfl := List.singleton_injective hsingleton
  exact ⟨hexisting, hlast, hfails⟩

/-- There was a bucket if there was an attempt. -/
theorem existing_bill (h : (l.bill ev i s).attempts ≠ []) :
  (l.bill ev i s).existing = true
  := by
  have hattempts : l.attempts i ++ l.state.found ev ≠ [] := h
  simp [bill, hattempts]

namespace Kept

theorem going_of_phase (h : l.Kept) {phase : Phase} (hphase : l.state.phase i = phase) :
  Going phase (l.attempts i)
  := hphase ▸ h.going i

/-- A call goes on. -/
theorem go (h : l.Kept) {phase : Phase} (hprocess : ev.process = some i)
    (hphase : s.phase = Function.update l.state.phase i phase) (hrunning : phase ≠ .idle)
    (hreturned : s.returned = l.state.returned)
    (hgoing : Going phase (l.attempts i ++ l.state.found ev)) :
  (l.note ev s).Kept
  := by
  have hnote : l.note ev s =
      ⟨s, Function.update l.attempts i (l.attempts i ++ l.state.found ev), l.bills⟩ := by
    rw [note, hprocess]
    dsimp only
    rw [hphase, Function.update_self, if_neg hrunning]
  rw [hnote]
  constructor
  case going =>
    intro k
    dsimp only
    rw [hphase]
    rcases eq_or_ne k i with rfl | hne
    · rw [Function.update_self, Function.update_self]
      apply hgoing
    · rw [Function.update_of_ne hne, Function.update_of_ne hne]
      apply h.going
  case returned =>
    dsimp only
    rw [hreturned]
    apply h.returned
  case regular => apply h.regular

/-- A call returns. -/
theorem close (h : l.Kept) {r : Result} (hprocess : ev.process = some i)
    (hphase : s.phase = Function.update l.state.phase i .idle)
    (hreturned : s.returned = l.state.returned ++ [r])
    (haddress : (l.state.caller i ev).1 = r.address) (hregular : (l.bill ev i s).Regular) :
  (l.note ev s).Kept
  := by
  have hnote : l.note ev s =
      ⟨s, Function.update l.attempts i [], l.bills ++ [l.bill ev i s]⟩ := by
    rw [note, hprocess]
    dsimp only
    rw [hphase, Function.update_self, if_pos rfl]
  rw [hnote]
  constructor
  case going =>
    intro k
    dsimp only
    rw [hphase]
    rcases eq_or_ne k i with rfl | hne
    · rw [Function.update_self, Function.update_self]
      rfl
    · rw [Function.update_of_ne hne, Function.update_of_ne hne]
      apply h.going
  case returned =>
    have hallowed : (l.bill ev i s).allowed = r.allowed := by
      simp [bill, hreturned]
    have haddress' : (l.bill ev i s).address = r.address := haddress
    dsimp only
    rw [hreturned, List.map_append, List.map_append, h.returned, List.map_singleton,
      List.map_singleton, hallowed, haddress']
  case regular =>
    intro b hb
    rw [List.mem_append, List.mem_singleton] at hb
    rcases hb with hb | rfl
    · apply h.regular b hb
    · apply hregular

/-- A call returns without an attempt. -/
theorem close_nil (h : l.Kept) {r : Result} (hprocess : ev.process = some i)
    (hphase : s.phase = Function.update l.state.phase i .idle)
    (hreturned : s.returned = l.state.returned ++ [r])
    (haddress : (l.state.caller i ev).1 = r.address) (hattempts : l.attempts i = [])
    (hfound : l.state.found ev = []) :
  (l.note ev s).Kept
  := by
  apply h.close hprocess hphase hreturned haddress
  have hnil : (l.bill ev i s).attempts = [] := by
    simp [bill, hattempts, hfound]
  intro es e heq
  rw [hnil] at heq
  simp at heq

/-- A call is refused after attempts that failed. -/
theorem close_refused (h : l.Kept) (hprocess : ev.process = some i)
    (hphase : s.phase = Function.update l.state.phase i .idle)
    (hreturned : s.returned = l.state.returned ++ [⟨call.address, false, l.state.clock⟩])
    (hcaller : l.state.caller i ev = (some call.address, call.missing))
    (hfails : ∀ e ∈ l.attempts i, (e.charge call.missing).2 = false)
    (hfound : l.state.found ev = []) :
  (l.note ev s).Kept
  := by
  apply h.close hprocess hphase hreturned (by rw [hcaller])
  apply regular_of_fails existing_bill
  · intro _
    simp [bill, hreturned]
  · intro e he
    have hmissing : (l.bill ev i s).missing = call.missing := congrArg Prod.snd hcaller
    have hattempts : (l.bill ev i s).attempts = l.attempts i := by
      simp [bill, hfound]
    rw [hmissing]
    rw [hattempts] at he
    apply hfails e he

/-- A call is granted after an attempt that found the tokens. -/
theorem close_granted (h : l.Kept) (hprocess : ev.process = some i)
    (hphase : s.phase = Function.update l.state.phase i .idle)
    (hreturned : s.returned = l.state.returned ++ [⟨call.address, true, l.state.clock⟩])
    (hcaller : l.state.caller i ev = (some call.address, call.missing))
    (hfails : ∀ e ∈ l.attempts i, (e.charge call.missing).2 = false)
    (hfound : l.state.found ev = [e]) (hcharge : (e.charge call.missing).2 = true) :
  (l.note ev s).Kept
  := by
  apply h.close hprocess hphase hreturned (by rw [hcaller])
  have hmissing : (l.bill ev i s).missing = call.missing := congrArg Prod.snd hcaller
  have hattempts : (l.bill ev i s).attempts = l.attempts i ++ [e] := by
    simp [bill, hfound]
  have hallowed : (l.bill ev i s).allowed = true := by
    simp [bill, hreturned]
  apply regular_of_granted hattempts
  · apply existing_bill
    rw [hattempts]
    simp
  · rw [hmissing, hallowed, hcharge]
  · rw [hmissing]
    apply hfails

/-- An attempt is written down, whether the call goes on after it or returns. -/
theorem attempt (h : l.Kept) {t : State} (hprocess : ev.process = some i)
    (hcaller : l.state.caller i ev = (some call.address, call.missing))
    (husers : t.pool.users = l.state.pool.users) (hphases : t.phase = l.state.phase)
    (hreturned : t.returned = l.state.returned) (hclock : t.clock = l.state.clock)
    (hfails : ∀ e ∈ l.attempts i, (e.charge call.missing).2 = false)
    (hattempting : l.state.attempting ev = some call) :
  (l.note ev (t.attempt conf i call j)).Kept
  := by
  have hfound : l.state.found ev = [l.state.pool.users call.address.hashkey] := by
    rw [found, hattempting]
  cases haffords : t.affords call with
  | true =>
      rw [attempt_of_affords haffords]
      rw [affords, husers] at haffords
      apply h.close_granted hprocess _ _ hcaller hfails hfound haffords
      · rw [← hphases]
        rfl
      · rw [← hreturned, ← hclock]
        rfl
  | false =>
      have hgoing : l.attempts i ++ l.state.found ev ≠ [] ∧
          ∀ e ∈ l.attempts i ++ l.state.found ev, (e.charge call.missing).2 = false := by
        rw [affords, husers] at haffords
        rw [hfound]
        refine ⟨by simp, ?_⟩
        intro e he
        rw [List.mem_append, List.mem_singleton] at he
        rcases he with he | rfl
        · apply hfails e he
        · apply haffords
      cases j with
      | zero =>
          rw [attempt_zero haffords]
          have hfilling : Going (.filling call 0) (l.attempts i ++ l.state.found ev) := hgoing
          apply h.go hprocess _ Phase.noConfusion _ hfilling
          · rw [← hphases]
            rfl
          · rw [← hreturned]
            rfl
      | succ j =>
          rw [attempt_succ haffords]
          have hpenalised : Going (.penalised call (j + 1)) (l.attempts i ++ l.state.found ev) :=
            hgoing
          apply h.go hprocess _ Phase.noConfusion _ hpenalised
          · rw [← hphases]
            rfl
          · rw [← hreturned]
            rfl

/-- Every event keeps the ledger. -/
theorem step (h : l.Kept) (hnext : l.next conf ev = some l') :
  l'.Kept
  := by
  obtain ⟨s, hs, rfl⟩ := Option.map_eq_some_iff.mp hnext
  cases change_of_next hs with
  | tick d => exact ⟨h.going, h.returned, h.regular⟩
  | skip i address missing hidle =>
      have hgoing := h.going_of_phase hidle
      apply h.close_nil rfl rfl rfl rfl hgoing rfl
  | wait i address missing hidle =>
      have hgoing := h.going_of_phase hidle
      have hwaiting : Going (.waiting ⟨address, missing⟩)
          (l.attempts i ++ l.state.found (.act (.enter i address missing))) := by
        rw [show l.attempts i = [] from hgoing]
        rfl
      apply h.go rfl _ Phase.noConfusion _ hwaiting
      · rfl
      · rfl
  | create i call hphase hother =>
      have hgoing := h.going_of_phase hphase
      have hcaller : l.state.caller i (.act (.lock i)) = (some call.address, call.missing) := by
        simp [caller, hphase, Phase.call]
      have hfound : l.state.found (.act (.lock i)) = [] := by
        simp [found, attempting, hphase, hother]
      apply h.close_nil rfl rfl rfl (congrArg Prod.fst hcaller) hgoing hfound
  | first i call hphase howns =>
      have hgoing := h.going_of_phase hphase
      have hcaller : l.state.caller i (.act (.lock i)) = (some call.address, call.missing) := by
        simp [caller, hphase, Phase.call]
      have hattempting : l.state.attempting (.act (.lock i)) = some call := by
        simp [attempting, hphase, howns]
      have hfails : ∀ e ∈ l.attempts i, (e.charge call.missing).2 = false := by
        rw [show l.attempts i = [] from hgoing]
        simp
      apply h.attempt rfl hcaller rfl rfl rfl rfl hfails hattempting
  | refill i call j hphase =>
      have hgoing := h.going_of_phase hphase
      have hfound : l.state.found (.act (.lock i)) = [] := by
        simp [found, attempting, hphase]
      have hfilling : Going (.filling call j)
          (l.attempts i ++ l.state.found (.act (.lock i))) := by
        rw [hfound, List.append_nil]
        apply hgoing
      apply h.go rfl _ Phase.noConfusion _ hfilling
      · rfl
      · rfl
  | again i call j hphase hj =>
      have hgoing := h.going_of_phase hphase
      have hcaller : l.state.caller i (.act (.endFillup i)) =
          (some call.address, call.missing) := by
        simp [caller, hphase, Phase.call]
      have hattempting : l.state.attempting (.act (.endFillup i)) = some call := by
        simp [attempting, hphase, hj]
      apply h.attempt rfl hcaller _ _ _ _ hgoing.2 hattempting
      · rfl
      · rfl
      · rfl
      · rfl
  | refuse i call j hphase hj =>
      have hgoing := h.going_of_phase hphase
      have hcaller : l.state.caller i (.act (.endFillup i)) =
          (some call.address, call.missing) := by
        simp [caller, hphase, Phase.call]
      have hfound : l.state.found (.act (.endFillup i)) = [] := by
        simp [found, attempting, hphase, hj]
      apply h.close_refused rfl rfl rfl hcaller hgoing.2 hfound
  | unlocked i call hphase =>
      have hgoing := h.going_of_phase hphase
      have hcaller : l.state.caller i (.giveUp i) = (some call.address, call.missing) := by
        simp [caller, hphase, Phase.call]
      apply h.close_nil rfl rfl rfl (congrArg Prod.fst hcaller) hgoing rfl
  | expelled i call j hphase =>
      have hgoing := h.going_of_phase hphase
      have hcaller : l.state.caller i (.giveUp i) = (some call.address, call.missing) := by
        simp [caller, hphase, Phase.call]
      apply h.close_refused rfl rfl rfl hcaller hgoing.2 rfl

end Kept

theorem kept_of_reach (h : Reach (Ledger.next conf) anyStep (Ledger.init start) l) :
  l.Kept
  := h.invariant kept_init fun _ _ _ hkept _ hnext => hkept.step hnext

/-- The bucket that a process has found is written down in an event: for the call that goes on,
or on its bill. -/
def Noted (l l' : Ledger) (i : ℕ) (call : Call) (e : Entry) : Prop :=
  l'.attempts i = l.attempts i ++ [e] ∧ l'.bills = l.bills ∨
    ∃ b : Bill, l'.bills = l.bills ++ [b] ∧ b.address = some call.address ∧
      b.missing = call.missing ∧ b.attempts = l.attempts i ++ [e]

theorem noted_note (hprocess : ev.process = some i)
    (hcaller : l.state.caller i ev = (some call.address, call.missing))
    (hfound : l.state.found ev = [e]) :
  Noted l (l.note ev s) i call e
  := by
  rw [note, hprocess]
  dsimp only
  split_ifs
  · right
    refine ⟨_, rfl, congrArg Prod.fst hcaller, congrArg Prod.snd hcaller, ?_⟩
    rw [← hfound]
    rfl
  · left
    rw [← hfound]
    exact ⟨Function.update_self _ _ _, rfl⟩

end Ledger

/-- The process of a call that attempts to take tokens. -/
theorem process_of_attempting (h : s.attempting ev = some call) :
  ∃ i, ev.process = some i ∧ s.caller i ev = (some call.address, call.missing)
  := by
  unfold attempting at h
  split at h
  · rename_i i
    split at h
    · rename_i call' hphase
      split_ifs at h
      obtain rfl := Option.some.inj h
      exact ⟨i, rfl, by simp [caller, hphase, Phase.call]⟩
    · contradiction
  · rename_i i
    split at h
    · rename_i call' j hphase
      split_ifs at h
      obtain rfl := Option.some.inj h
      exact ⟨i, rfl, by simp [caller, hphase, Phase.call]⟩
    · contradiction
  · contradiction

/-- A new bucket replaces that of another client. -/
theorem ipAddr_ne_of_creating (h : s.creating ev = some call) :
  (s.pool.users call.address.hashkey).ipAddr ≠ call.address.ip
  := by
  unfold creating at h
  split at h
  · split at h
    · split_ifs at h with howns
      obtain rfl := Option.some.inj h
      simpa [owns] using howns
    · contradiction
  · contradiction

/-- In every run there is a bill for every result, and a call has taken what it should exactly
when what it found was fair.  An event changes the buckets in no other way: apart from a fill-up
of all of them, a bucket is as before, or is that of an attempt that is written down, or is a new
one for another client. -/
theorem charges_exact (h : Reach (Ledger.next conf) anyStep (Ledger.init start) l) :
  (l.bills.map fun b => (b.address, b.allowed)) =
      (l.state.returned.map fun r => (r.address, r.allowed)) ∧
    (∀ b ∈ l.bills, b.Proper ↔ b.Fair) ∧
    ∀ ev l', l.next conf ev = some l' → ∃ users : ℕ → Entry,
      (l'.state.pool.users = users ∨ ∃ tiles renders,
        l'.state.pool.users = fun k => (users k).topUp conf tiles renders) ∧
      ∀ k, users k = l.state.pool.users k ∨
        (∃ i call, ev.process = some i ∧ k = call.address.hashkey ∧
          users k = ((l.state.pool.users k).charge call.missing).1 ∧
          Ledger.Noted l l' i call (l.state.pool.users k)) ∨
        ∃ call : Call, k = call.address.hashkey ∧
          (l.state.pool.users k).ipAddr ≠ call.address.ip ∧
          users k = ⟨call.address.ip, conf.tileSize, conf.renderSize⟩
  := by
  have hkept := Ledger.kept_of_reach h
  refine ⟨hkept.returned, fun b hb => Bill.proper_iff_fair (hkept.regular b hb), ?_⟩
  intro ev l' hnext
  obtain ⟨s, hs, rfl⟩ := Option.map_eq_some_iff.mp hnext
  obtain ⟨p, hedited, hcase⟩ := next_pool hs
  have hstate : (l.note ev s).state = s := by
    rw [Ledger.note]
    split
    · rfl
    · split_ifs <;> rfl
  refine ⟨p.users, ?_, ?_⟩
  · rw [hstate]
    rcases hcase with ⟨-, hpool, -⟩ | ⟨-, hpool, -⟩
    · left
      rw [hpool]
    · rw [hpool, Pool.fillup]
      dsimp only
      split_ifs
      · right
        exact ⟨_, _, rfl⟩
      · left
        rfl
  · intro k
    rcases hedited.users k with hk | ⟨call, hattempting, rfl, hk⟩ | ⟨call, hcreating, rfl, hk⟩
    · left
      apply hk
    · right
      left
      obtain ⟨i, hprocess, hcaller⟩ := process_of_attempting hattempting
      have hfound : l.state.found ev = [l.state.pool.users call.address.hashkey] := by
        rw [found, hattempting]
      exact ⟨i, call, hprocess, rfl, hk, Ledger.noted_note hprocess hcaller hfound⟩
    · right
      right
      exact ⟨call, rfl, ipAddr_ne_of_creating hcreating, hk⟩

/-! ### Calls that take what they should not -/

/-- A process calls the function for a tile that is missing, and gets the mutex. -/
def missingCall (client : Address) : List Action :=
  [.enter 0 client true, .lock 0]

/-- A client gets a bucket and takes a token of each kind. -/
def chargedRun : Option Ledger :=
  Transition.run (Ledger.next sampleConf) (fun _ _ => true) (Ledger.init 0)
    ((missingCall sampleClient ++ missingCall sampleClient).map Event.act)

theorem charges_exact_chargedRun :
  ∃ l b, Reach (Ledger.next sampleConf) anyStep (Ledger.init 0) l ∧ l.bills.getLast? = some b ∧
    b.allowed = true ∧ b.existing = true ∧ b.Fair ∧ b.Proper
  := by
  have hrun : chargedRun.map (fun l => l.bills.getLast?) =
      some (some ⟨sampleClient, true, true, true, [⟨sampleClient.ip, 1, 1⟩]⟩) := by
    decide +kernel
  obtain ⟨l, hl, hlast⟩ := Option.map_eq_some_iff.mp hrun
  have hreach : Reach (Ledger.next sampleConf) anyStep (Ledger.init 0) l :=
    reach_of_run hl fun _ _ _ => trivial
  have hfair : Bill.Fair ⟨sampleClient, true, true, true, [⟨sampleClient.ip, 1, 1⟩]⟩ := by
    simp [Bill.Fair, Bill.owns]
  refine ⟨l, _, hreach, hlast, rfl, rfl, hfair, ?_⟩
  apply ((charges_exact hreach).2.1 _ (List.mem_of_getLast? hlast)).mpr hfair

/-- Buckets of two tokens for tiles and one for renderings, and a token every second. -/
def slowConf : Conf := ⟨2, 1, 1000000, 1000000⟩

/-- The bill of the last call of a run from the start. -/
def lastBill (conf : Conf) (as : List Action) : Option Bill :=
  (Transition.run (Ledger.next conf) (fun _ _ => true) (Ledger.init 0)
    (as.map Event.act)).bind fun l => l.bills.getLast?

/-- A call for a missing tile that is refused since there is no token for a rendering. -/
def refusedBill : Bill :=
  ⟨sampleClient, true, true, false,
    [⟨sampleClient.ip, 1, 0⟩, ⟨sampleClient.ip, 0, 0⟩, ⟨sampleClient.ip, 0, 0⟩]⟩

/-- A call of a client that was made to wait while another one got a bucket in its place. -/
def foreignBill : Bill :=
  ⟨sampleClient, false, true, true,
    [⟨sampleClient.ip, 0, 1⟩, ⟨sampleClient.ip, 0, 1⟩, ⟨sampleOther.ip, 1, 1⟩]⟩

/-- A call of a client with a bucket while the buckets are filled. -/
def skippedBill : Bill := ⟨sampleClient, false, true, true, []⟩

/-- A call for a missing tile is refused and has taken the token for a tile.  A client is made to
wait while another one gets a bucket in its place, and takes the token from it.  A call is granted
without taking a token while the buckets are filled. -/
theorem charges_improper :
  (lastBill slowConf (missingCall sampleClient ++ missingCall sampleClient ++
      missingCall sampleClient ++ [.endFillup 0, .lock 0, .endFillup 0, .lock 0, .endFillup 0]) =
      some refusedBill ∧ ¬refusedBill.Proper) ∧
    (lastBill sampleConf (sampleCall sampleClient ++ sampleCall sampleClient ++
      sampleCall sampleClient ++
      [.endFillup 0, .enter 1 sampleOther false, .lock 1, .lock 0, .endFillup 0]) =
      some foreignBill ∧ ¬foreignBill.Proper) ∧
    (lastBill sampleConf (sampleCall sampleClient ++ [.tick 5] ++
      sampleCall (.v6 (0, 0, 0, 0)) ++ [.enter 1 sampleClient false]) =
      some skippedBill ∧ ¬skippedBill.Proper)
  := by
  refine ⟨⟨?_, ?_⟩, ⟨?_, ?_⟩, ⟨?_, ?_⟩⟩
  · decide +kernel
  · rintro ⟨-, hrefused, -⟩
    have htaken := hrefused rfl ⟨sampleClient.ip, 1, 0⟩ (by simp [refusedBill])
    simp [taken_eq] at htaken
  · decide +kernel
  · rintro ⟨-, -, hothers⟩
    have htaken := hothers ⟨sampleOther.ip, 1, 1⟩ (by simp [foreignBill]) (by decide)
    simp [taken_eq] at htaken
  · decide +kernel
  · rintro ⟨hgranted, -, -⟩
    have htiles := (hgranted rfl rfl).1
    simp [Bill.tiles, skippedBill] at htiles

end DelayPool
