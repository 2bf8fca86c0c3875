import Mathlib.Data.Rat.Floor
import ModTile.TileModule.DelayEvents

/-!
# The tokens of the delay pool

A fill-up gives every bucket the tokens for the time since the last one, and moves the time of
the last fill-up on by the time for these tokens.  The number of tokens is stored in an `int`, and
so is the content of a bucket.  As long as both fit, the buckets hold between zero tokens and
their size, the times of the fill-ups do not run ahead of the clock, and they are what the tokens
add up to.

The sizes and the rates are those that the directives `ModTileThrottlingTiles` and
`ModTileThrottlingRenders` accept.  A rate is given in tokens per second and kept as the number of
microseconds for a token.
-/

namespace DelayPool

open Transition

/-! ### The directives -/

/-- The values of a `double`. -/
inductive Double where
  | nan
  | infinity (negative : Bool)
  | finite (x : ℚ)

namespace Double

/-- The comparison `d <= n`. -/
def le (n : ℤ) : Double → Bool
  | nan => false
  | infinity negative => negative
  | finite x => x ≤ n

/-- The comparison `d > n`. -/
def gt (n : ℤ) : Double → Bool
  | nan => false
  | infinity negative => !negative
  | finite x => x > n

/-- The conversion to a `long`, which is undefined for what does not fit. -/
def toLong : Double → Option ℤ
  | finite x =>
      let n := if 0 ≤ x then ⌊x⌋ else ⌈x⌉
      if -2 ^ 63 ≤ n ∧ n < 2 ^ 63 then some n else none
  | _ => none

end Double

/-- The rounding of quotients, by which a quotient of at least one does not get smaller than
one. -/
structure Rounding where
  round : ℚ → Double
  one_le : ∀ q x, 1 ≤ q → round q = .finite x → 1 ≤ x

/-- The division `n / d`. -/
def Rounding.divide (rounding : Rounding) (n : ℤ) : Double → Double
  | .nan => .nan
  | .infinity _ => .finite 0
  | .finite x => if x = 0 then .infinity false else rounding.round (n / x)

/-- `APR_USEC_PER_SEC`: the microseconds in a second. -/
def aprUsecPerSec : ℤ := 1000000

/-- `arg_to_int`, where `read` is the number that the argument starts with. -/
def argToInt (configDirectiveName : String) (read : Option ℤ) : Except String ℤ :=
  match read with
  | none => .error (configDirectiveName ++ " argument must be an integer")
  | some n => .ok (toInt n)

/-- `arg_to_double`, where `read` is the number that the argument starts with. -/
def argToDouble (configDirectiveName : String) (read : Option Double) : Except String Double :=
  match read with
  | none => .error (configDirectiveName ++ " argument must be a float")
  | some d => .ok d

/-- A directive for a bucket: the size, and the microseconds for a token if the conversion of
their number is defined. -/
def delaypoolConfig (directive tokens : String) (rounding : Rounding) (size : Option ℤ)
    (rate : Option Double) : Except String (ℤ × Option ℤ) := do
  let delaypoolSize ← argToInt (directive ++ " first") size
  let topUpRate ← argToDouble (directive ++ " second") rate
  if topUpRate.le 0 || topUpRate.gt aprUsecPerSec then
    .error (directive ++ " second argument (top up rate in " ++ tokens ++
      " per second) must be greater than " ++ toString 0 ++ " and at most " ++
      toString aprUsecPerSec)
  else
    .ok (delaypoolSize, (rounding.divide aprUsecPerSec topUpRate).toLong)

def modTileDelaypoolTilesConfig : Rounding → Option ℤ → Option Double →
    Except String (ℤ × Option ℤ) :=
  delaypoolConfig "ModTileThrottlingTiles" "tiles"

def modTileDelaypoolRenderConfig : Rounding → Option ℤ → Option Double →
    Except String (ℤ × Option ℤ) :=
  delaypoolConfig "ModTileThrottlingRenders" "renders"

/-- A configuration that the two directives give. -/
def Configured (rounding : Rounding) (conf : Conf) : Prop :=
  (∃ size rate, modTileDelaypoolTilesConfig rounding size rate =
      .ok (conf.tileSize, some conf.tileRate)) ∧
    ∃ size rate, modTileDelaypoolRenderConfig rounding size rate =
      .ok (conf.renderSize, some conf.renderRate)

/-- A rate that is accepted is finite and positive, and at most one token in a microsecond. -/
theorem exists_finite {d : Double} {n : ℤ} (hle : d.le 0 = false) (hgt : d.gt n = false)
    (hnan : d ≠ .nan) :
  ∃ x : ℚ, d = .finite x ∧ 0 < x ∧ x ≤ n
  := by
  cases d with
  | nan => contradiction
  | infinity negative =>
      rw [Double.le] at hle
      rw [Double.gt, hle] at hgt
      contradiction
  | finite x =>
      refine ⟨x, rfl, ?_, ?_⟩
      · simpa [Double.le] using hle
      · simpa [Double.gt] using hgt

/-- The conversion of a number that is at least one. -/
theorem one_le_toLong {x : ℚ} {n : ℤ} (hx : 1 ≤ x) (h : (Double.finite x).toLong = some n) :
  1 ≤ n
  := by
  have hnonneg : 0 ≤ x := zero_le_one.trans hx
  rw [Double.toLong, if_pos hnonneg] at h
  split_ifs at h
  obtain rfl := Option.some.inj h
  rw [Int.le_floor]
  exact_mod_cast hx

/-- A token takes at least a microsecond. -/
theorem one_le_of_delaypoolConfig {directive tokens : String} {rounding : Rounding}
    {size : Option ℤ} {rate : Option Double} {n r : ℤ}
    (h : delaypoolConfig directive tokens rounding size rate = .ok (n, some r)) :
  1 ≤ r
  := by
  cases size with
  | none => contradiction
  | some size =>
      cases rate with
      | none => contradiction
      | some d =>
          have heq : delaypoolConfig directive tokens rounding (some size) (some d) =
              if d.le 0 || d.gt aprUsecPerSec then
                .error (directive ++ " second argument (top up rate in " ++ tokens ++
                  " per second) must be greater than " ++ toString 0 ++ " and at most " ++
                  toString aprUsecPerSec)
              else .ok (toInt size, (rounding.divide aprUsecPerSec d).toLong) := rfl
          rw [heq] at h
          split_ifs at h with hrefused
          obtain ⟨hle, hgt⟩ := Bool.or_eq_false_iff.mp (Bool.eq_false_of_not_eq_true hrefused)
          obtain ⟨-, hlong⟩ := Prod.mk.inj (Except.ok.inj h)
          have hnan : d ≠ .nan := by
            rintro rfl
            contradiction
          obtain ⟨x, rfl, hpos, hx⟩ := exists_finite hle hgt hnan
          rw [Rounding.divide, if_neg hpos.ne'] at hlong
          have hquotient : 1 ≤ (aprUsecPerSec : ℚ) / x := by
            rw [le_div_iff₀ hpos, one_mul]
            apply hx
          cases hround : rounding.round (aprUsecPerSec / x) with
          | nan =>
              rw [hround] at hlong
              contradiction
          | infinity negative =>
              rw [hround] at hlong
              contradiction
          | finite y =>
              rw [hround] at hlong
              apply one_le_toLong (rounding.one_le _ _ hquotient hround) hlong

/-! ### The tokens of a run -/

/-- `tiles_topup` and `render_topup`. -/
def Pool.topUps (conf : Conf) (now : ℤ) (p : Pool) : ℤ × ℤ :=
  (toInt ((now - p.lastTileFillup).tdiv conf.tileRate),
    toInt ((now - p.lastRenderFillup).tdiv conf.renderRate))

/-- The tokens that the buckets are given in a fill-up. -/
def Pool.granted (conf : Conf) (now : ℤ) (p : Pool) : ℤ × ℤ :=
  if (p.topUps conf now).1 > 0 ∨ (p.topUps conf now).2 > 0 then p.topUps conf now else (0, 0)

/-- A state, with the tokens for tiles and for renderings that every bucket has been given. -/
structure Metered where
  state : State
  tiles : ℤ
  renders : ℤ

namespace Metered

variable (conf : Conf)

def init (start : ℤ) : Metered := ⟨State.init start, 0, 0⟩

/-- The tokens that the buckets are given in an event. -/
def granted (m : Metered) (ev : Event) : ℤ × ℤ :=
  match m.state.filling ev with
  | none => (0, 0)
  | some p => p.granted conf m.state.clock

/-- The state after an event, if it is possible. -/
def next (m : Metered) (ev : Event) : Option Metered :=
  (m.state.next conf ev).map fun s =>
    ⟨s, m.tiles + (m.granted conf ev).1, m.renders + (m.granted conf ev).2⟩

end Metered

/-- The tokens for the time since the last fill-up, and what the buckets would hold with them,
fit into an `int`. -/
structure Pool.Fits (conf : Conf) (now : ℤ) (p : Pool) : Prop where
  tiles : ∀ k, (p.users k).availableTiles + (now - p.lastTileFillup) / conf.tileRate < 2 ^ 31
  renders : ∀ k,
    (p.users k).availableRenderReq + (now - p.lastRenderFillup) / conf.renderRate < 2 ^ 31

/-- The condition on an event: if the buckets are filled, the numbers fit. -/
def Metered.Fits (conf : Conf) (m : Metered) (ev : Event) : Prop :=
  ∀ p, m.state.filling ev = some p → p.Fits conf m.state.clock

/-- The bucket holds what it may hold. -/
structure Entry.Bounded (conf : Conf) (e : Entry) : Prop where
  tiles_nonneg : 0 ≤ e.availableTiles
  tiles_le : e.availableTiles ≤ conf.tileSize
  renders_nonneg : 0 ≤ e.availableRenderReq
  renders_le : e.availableRenderReq ≤ conf.renderSize

/-- The buckets hold what they may hold, and are filled up to now at most. -/
structure Pool.Bounded (conf : Conf) (now : ℤ) (p : Pool) : Prop where
  users : ∀ k, (p.users k).Bounded conf
  tileFillup_le : p.lastTileFillup ≤ now
  renderFillup_le : p.lastRenderFillup ≤ now

variable {conf : Conf} {p : Pool} {e : Entry} {s s' : State} {m m' : Metered} {ev : Event}
  {now start : ℤ} {missing : Bool}

/-- An attempt takes at most what there is. -/
theorem availableRenderReq_charge (missing : Bool) (h : 0 ≤ e.availableRenderReq) :
  0 ≤ (e.charge missing).1.availableRenderReq ∧
    (e.charge missing).1.availableRenderReq ≤ e.availableRenderReq
  := by
  cases missing with
  | false => exact ⟨h, le_rfl⟩
  | true =>
      rw [Entry.charge]
      by_cases hrenders : e.availableRenderReq > 0
      · simp only [hrenders, if_true]
        omega
      · simp [hrenders, h]

theorem Entry.Bounded.charge (h : e.Bounded conf) (missing : Bool) :
  (e.charge missing).1.Bounded conf
  := by
  obtain ⟨htiles, htiles'⟩ := availableTiles_charge missing h.tiles_nonneg
  obtain ⟨hrenders, hrenders'⟩ := availableRenderReq_charge missing h.renders_nonneg
  exact ⟨htiles, htiles'.trans h.tiles_le, hrenders, hrenders'.trans h.renders_le⟩

/-- A bucket that is filled with tokens that fit. -/
theorem Entry.Bounded.topUp (h : e.Bounded conf) {tiles renders : ℤ} (htiles : 0 ≤ tiles)
    (hrenders : 0 ≤ renders) (hlt : e.availableTiles + tiles < 2 ^ 31)
    (hlt' : e.availableRenderReq + renders < 2 ^ 31) :
  (e.topUp conf tiles renders).Bounded conf
  := by
  have htiles_eq : (e.topUp conf tiles renders).availableTiles =
      min conf.tileSize (e.availableTiles + tiles) :=
    availableTiles_topUp h.tiles_nonneg htiles hlt
  have hrenders_eq : (e.topUp conf tiles renders).availableRenderReq =
      min conf.renderSize (e.availableRenderReq + renders) :=
    topUp_eq_min h.renders_nonneg hrenders hlt'
  constructor
  case tiles_nonneg =>
    rw [htiles_eq]
    apply le_min (h.tiles_nonneg.trans h.tiles_le) (add_nonneg h.tiles_nonneg htiles)
  case tiles_le =>
    rw [htiles_eq]
    apply min_le_left
  case renders_nonneg =>
    rw [hrenders_eq]
    apply le_min (h.renders_nonneg.trans h.renders_le) (add_nonneg h.renders_nonneg hrenders)
  case renders_le =>
    rw [hrenders_eq]
    apply min_le_left

namespace Pool.Bounded

/-- The changes to single buckets keep the bounds. -/
theorem edited (h : s.pool.Bounded conf now) (htiles : 0 ≤ conf.tileSize)
    (hrenders : 0 ≤ conf.renderSize) (hedited : Edited conf s ev p) :
  p.Bounded conf now
  := by
  constructor
  case users =>
    intro k
    rcases hedited.users k with hk | ⟨call, -, -, hk⟩ | ⟨call, -, -, hk⟩
    · rw [hk]
      apply h.users
    · rw [hk]
      apply (h.users k).charge
    · rw [hk]
      exact ⟨htiles, le_rfl, hrenders, le_rfl⟩
  case tileFillup_le =>
    rw [hedited.lastTileFillup]
    apply h.tileFillup_le
  case renderFillup_le =>
    rw [hedited.lastRenderFillup]
    apply h.renderFillup_le

/-- Time passes. -/
theorem later (h : p.Bounded conf now) {now' : ℤ} (hle : now ≤ now') :
  p.Bounded conf now'
  := ⟨h.users, h.tileFillup_le.trans hle, h.renderFillup_le.trans hle⟩

/-- The numbers of tokens in a fill-up. -/
theorem topUps_eq (h : p.Bounded conf now) (htile : 0 < conf.tileRate)
    (hrender : 0 < conf.renderRate) (hfits : p.Fits conf now) :
  p.topUps conf now = ((now - p.lastTileFillup) / conf.tileRate,
    (now - p.lastRenderFillup) / conf.renderRate)
  := by
  have htiles := hfits.tiles 0
  have hrenders := hfits.renders 0
  have hnonneg := (h.users 0).tiles_nonneg
  have hnonneg' := (h.users 0).renders_nonneg
  rw [Pool.topUps, toInt_tdiv htile (Int.sub_nonneg_of_le h.tileFillup_le) (by omega),
    toInt_tdiv hrender (Int.sub_nonneg_of_le h.renderFillup_le) (by omega)]

theorem topUps_nonneg (h : p.Bounded conf now) (htile : 0 < conf.tileRate)
    (hrender : 0 < conf.renderRate) (hfits : p.Fits conf now) :
  0 ≤ (p.topUps conf now).1 ∧ 0 ≤ (p.topUps conf now).2
  := by
  rw [h.topUps_eq htile hrender hfits]
  exact ⟨Int.ediv_nonneg (Int.sub_nonneg_of_le h.tileFillup_le) htile.le,
    Int.ediv_nonneg (Int.sub_nonneg_of_le h.renderFillup_le) hrender.le⟩

/-- A fill-up that fits gives the buckets all the tokens. -/
theorem granted_eq (h : p.Bounded conf now) (htile : 0 < conf.tileRate)
    (hrender : 0 < conf.renderRate) (hfits : p.Fits conf now) :
  p.granted conf now = p.topUps conf now
  := by
  obtain ⟨htiles, hrenders⟩ := h.topUps_nonneg htile hrender hfits
  rw [Pool.granted]
  split_ifs with hfill
  · rfl
  · apply Prod.ext
    · dsimp only
      omega
    · dsimp only
      omega

/-- A fill-up that fits keeps the bounds. -/
theorem fillup (h : p.Bounded conf now) (htile : 0 < conf.tileRate)
    (hrender : 0 < conf.renderRate) (hfits : p.Fits conf now) :
  (p.fillup conf now).Bounded conf now
  := by
  have heq := h.topUps_eq htile hrender hfits
  obtain ⟨htiles, hrenders⟩ := h.topUps_nonneg htile hrender hfits
  have htopUp : (p.fillup conf now).users = if (p.topUps conf now).1 > 0 ∨
      (p.topUps conf now).2 > 0 then fun k => (p.users k).topUp conf (p.topUps conf now).1
        (p.topUps conf now).2 else p.users := rfl
  constructor
  case users =>
    intro k
    have hlt := hfits.tiles k
    have hlt' := hfits.renders k
    rw [htopUp]
    split_ifs
    · apply (h.users k).topUp htiles hrenders
      · rwa [heq]
      · rwa [heq]
    · apply h.users
  case tileFillup_le =>
    have hlast : (p.fillup conf now).lastTileFillup =
        p.lastTileFillup + conf.tileRate * (p.topUps conf now).1 := rfl
    rw [hlast, heq]
    apply fillup_le now htile
  case renderFillup_le =>
    have hlast : (p.fillup conf now).lastRenderFillup =
        p.lastRenderFillup + conf.renderRate * (p.topUps conf now).2 := rfl
    rw [hlast, heq]
    apply fillup_le now hrender

/-- If the time since the last fill-up is short enough for full buckets, everything fits. -/
theorem fits (h : p.Bounded conf now) (htile : 0 < conf.tileRate) (hrender : 0 < conf.renderRate)
    (htiles : now - p.lastTileFillup < conf.tileRate * (2 ^ 31 - conf.tileSize))
    (hrenders : now - p.lastRenderFillup < conf.renderRate * (2 ^ 31 - conf.renderSize)) :
  p.Fits conf now
  := by
  have hlt := ediv_lt_of_elapsed htile htiles
  have hlt' := ediv_lt_of_elapsed hrender hrenders
  constructor
  · intro k
    have hle := (h.users k).tiles_le
    omega
  · intro k
    have hle := (h.users k).renders_le
    omega

end Pool.Bounded

/-- The bounds hold, and the times of the last fill-ups are the tokens since the start. -/
structure Metered.Exact (conf : Conf) (start : ℤ) (m : Metered) : Prop where
  bounded : m.state.pool.Bounded conf m.state.clock
  tiles : m.state.pool.lastTileFillup - start = conf.tileRate * m.tiles
  renders : m.state.pool.lastRenderFillup - start = conf.renderRate * m.renders

theorem Metered.exact_init (htiles : 0 ≤ conf.tileSize) (hrenders : 0 ≤ conf.renderSize) :
  (Metered.init start).Exact conf start
  := by
  constructor
  case bounded => exact ⟨fun _ => ⟨le_rfl, htiles, le_rfl, hrenders⟩, le_rfl, le_rfl⟩
  case tiles => simp [Metered.init, State.init]
  case renders => simp [Metered.init, State.init]

/-- What an event does to the table and the tokens: single buckets change, or all buckets are
filled. -/
theorem Metered.next_cases (h : m.Exact conf start) (htile : 0 < conf.tileRate)
    (hrender : 0 < conf.renderRate) (htiles : 0 ≤ conf.tileSize)
    (hrenders : 0 ≤ conf.renderSize) (hfits : m.Fits conf ev) (hnext : m.next conf ev = some m') :
  m'.state.pool.Bounded conf m'.state.clock ∧
    ∃ n n', 0 ≤ n ∧ 0 ≤ n' ∧
      m'.state.pool.lastTileFillup = m.state.pool.lastTileFillup + conf.tileRate * n ∧
      m'.state.pool.lastRenderFillup = m.state.pool.lastRenderFillup + conf.renderRate * n' ∧
      m'.tiles = m.tiles + n ∧ m'.renders = m.renders + n'
  := by
  obtain ⟨s', hs', rfl⟩ := Option.map_eq_some_iff.mp hnext
  obtain ⟨p, hedited, hcase⟩ := next_pool hs'
  have hbounded := h.bounded.edited htiles hrenders hedited
  rcases hcase with ⟨hfilling, rfl, hclock⟩ | ⟨hfilling, hpool, hclock⟩
  · have hgranted : m.granted conf ev = (0, 0) := by
      rw [Metered.granted, hfilling]
    refine ⟨hbounded.later hclock, 0, 0, le_rfl, le_rfl, ?_, ?_, ?_, ?_⟩
    · rw [hedited.lastTileFillup, mul_zero, add_zero]
    · rw [hedited.lastRenderFillup, mul_zero, add_zero]
    · rw [hgranted]
    · rw [hgranted]
  · have hp := hfits p hfilling
    have hgranted : m.granted conf ev = p.topUps conf m.state.clock := by
      rw [Metered.granted, hfilling]
      apply hbounded.granted_eq htile hrender hp
    obtain ⟨hn, hn'⟩ := hbounded.topUps_nonneg htile hrender hp
    refine ⟨?_, _, _, hn, hn', ?_, ?_, ?_, ?_⟩
    · rw [hpool, hclock]
      apply hbounded.fillup htile hrender hp
    · rw [hpool, ← hedited.lastTileFillup]
      rfl
    · rw [hpool, ← hedited.lastRenderFillup]
      rfl
    · rw [hgranted]
    · rw [hgranted]

theorem Metered.Exact.next (h : m.Exact conf start) (htile : 0 < conf.tileRate)
    (hrender : 0 < conf.renderRate) (htiles : 0 ≤ conf.tileSize)
    (hrenders : 0 ≤ conf.renderSize) (hfits : m.Fits conf ev) (hnext : m.next conf ev = some m') :
  m'.Exact conf start
  := by
  obtain ⟨hbounded, n, n', -, -, hlast, hlast', hn, hn'⟩ :=
    Metered.next_cases h htile hrender htiles hrenders hfits hnext
  constructor
  case bounded => apply hbounded
  case tiles =>
    rw [hlast, hn, mul_add, ← h.tiles]
    ring
  case renders =>
    rw [hlast', hn', mul_add, ← h.renders]
    ring

theorem Metered.exact_of_reach (htile : 0 < conf.tileRate) (hrender : 0 < conf.renderRate)
    (htiles : 0 ≤ conf.tileSize) (hrenders : 0 ≤ conf.renderSize)
    (h : Reach (Metered.next conf) (Metered.Fits conf) (Metered.init start) m) :
  m.Exact conf start
  := by
  apply h.invariant
  · apply Metered.exact_init htiles hrenders
  · intro m ev m' hm hfits hnext
    apply hm.next htile hrender htiles hrenders hfits hnext

/-- If the times since the last fill-ups are short enough for full buckets, the event fits. -/
theorem Metered.Exact.fits (h : m.Exact conf start) (htile : 0 < conf.tileRate)
    (hrender : 0 < conf.renderRate) (htiles : 0 ≤ conf.tileSize) (hrenders : 0 ≤ conf.renderSize)
    (hshort : m.state.clock - m.state.pool.lastTileFillup <
      conf.tileRate * (2 ^ 31 - conf.tileSize))
    (hshort' : m.state.clock - m.state.pool.lastRenderFillup <
      conf.renderRate * (2 ^ 31 - conf.renderSize))
    (hnext : m.next conf ev = some m') :
  m.Fits conf ev
  := by
  intro p hp
  obtain ⟨s', hs', -⟩ := Option.map_eq_some_iff.mp hnext
  obtain ⟨q, hedited, hcase⟩ := next_pool hs'
  rcases hcase with ⟨hnone, -⟩ | ⟨hsome, -⟩
  · rw [hp] at hnone
    contradiction
  · rw [hp] at hsome
    obtain rfl := Option.some.inj hsome
    apply (h.bounded.edited htiles hrenders hedited).fits htile hrender
    · rwa [hedited.lastTileFillup]
    · rwa [hedited.lastRenderFillup]

theorem Configured.rates_pos {rounding : Rounding} (h : Configured rounding conf) :
  0 < conf.tileRate ∧ 0 < conf.renderRate
  := by
  obtain ⟨⟨_, _, htile⟩, ⟨_, _, hrender⟩⟩ := h
  exact ⟨one_le_of_delaypoolConfig htile, one_le_of_delaypoolConfig hrender⟩

/-- In every run in which the numbers of the fill-ups fit into an `int`, all buckets hold between
zero tokens and their size, the times of the last fill-ups are not after the current time and
never decrease, and they have moved on by the time for the tokens that were given. -/
theorem topUps_exact {rounding : Rounding} (hconf : Configured rounding conf)
    (htiles : 0 ≤ conf.tileSize) (hrenders : 0 ≤ conf.renderSize)
    (h : Reach (Metered.next conf) (Metered.Fits conf) (Metered.init start) m) :
  (∀ k, 0 ≤ (m.state.pool.users k).availableTiles ∧
      (m.state.pool.users k).availableTiles ≤ conf.tileSize ∧
      0 ≤ (m.state.pool.users k).availableRenderReq ∧
      (m.state.pool.users k).availableRenderReq ≤ conf.renderSize) ∧
    m.state.pool.lastTileFillup ≤ m.state.clock ∧
    m.state.pool.lastRenderFillup ≤ m.state.clock ∧
    m.state.pool.lastTileFillup - start = conf.tileRate * m.tiles ∧
    m.state.pool.lastRenderFillup - start = conf.renderRate * m.renders ∧
    ∀ ev m', m.Fits conf ev → m.next conf ev = some m' →
      m.state.pool.lastTileFillup ≤ m'.state.pool.lastTileFillup ∧
        m.state.pool.lastRenderFillup ≤ m'.state.pool.lastRenderFillup
  := by
  obtain ⟨htile, hrender⟩ := hconf.rates_pos
  have hexact := Metered.exact_of_reach htile hrender htiles hrenders h
  refine ⟨?_, hexact.bounded.tileFillup_le, hexact.bounded.renderFillup_le, hexact.tiles,
    hexact.renders, ?_⟩
  · intro k
    obtain ⟨hnonneg, hle, hnonneg', hle'⟩ := hexact.bounded.users k
    exact ⟨hnonneg, hle, hnonneg', hle'⟩
  · intro ev m' hfits hnext
    obtain ⟨-, n, n', hn, hn', hlast, hlast', -, -⟩ :=
      Metered.next_cases hexact htile hrender htiles hrenders hfits hnext
    rw [hlast, hlast']
    constructor
    · apply Int.le_add_of_nonneg_right
      positivity
    · apply Int.le_add_of_nonneg_right
      positivity

/-! ### A fill-up that does not fit -/

theorem one_le_of_finite (q x : ℚ) (hq : 1 ≤ q) (h : Double.finite q = .finite x) :
  1 ≤ x
  := by
  rwa [← Double.finite.inj h]

/-- Quotients that are not rounded. -/
def sampleRounding : Rounding := ⟨Double.finite, one_le_of_finite⟩

/-- Buckets of one token.  There is one for a tile every microsecond, and one for a rendering
every five seconds. -/
def fastConf : Conf := ⟨1, 1, 1, 5000000⟩

theorem configured_fastConf :
  Configured sampleRounding fastConf
  := by
  refine ⟨⟨some 1, some (.finite 1000000), ?_⟩, ⟨some 1, some (.finite (1 / 5)), ?_⟩⟩
  · decide +kernel
  · decide +kernel

/-- A client gets a bucket and takes the token from it.  After some time it makes another
request. -/
def fastEvents (d : ℕ) : List Event :=
  (sampleCall sampleClient ++ sampleCall sampleClient ++
    [Action.tick d, Action.enter 0 sampleClient false]).map Event.act

/-- The run up to the fill-up. -/
def fastRun : Option Metered :=
  Transition.run (Metered.next fastConf) (fun m ev => (m.state.filling ev).isNone)
    (Metered.init 0) (fastEvents 5000000)

theorem topUps_exact_fastRun :
  ∃ m, Reach (Metered.next fastConf) (Metered.Fits fastConf) (Metered.init 0) m ∧
    m.tiles = 5000000 ∧ m.renders = 1 ∧
    (m.state.pool.users sampleClient.hashkey).availableTiles ≤ fastConf.tileSize ∧
    m.state.pool.lastTileFillup - 0 = fastConf.tileRate * m.tiles ∧
    m.state.pool.lastRenderFillup - 0 = fastConf.renderRate * m.renders
  := by
  have hrun : fastRun.map (fun m => (m.state.clock, m.state.pool.lastTileFillup,
      m.state.pool.lastRenderFillup, (m.next fastConf (.act (.lock 0))).map fun m' =>
        (m'.tiles, m'.renders))) = some (5000000, 0, 0, some (5000000, 1)) := by
    decide +kernel
  obtain ⟨m, hm, hstate⟩ := Option.map_eq_some_iff.mp hrun
  obtain ⟨hclock, hrest⟩ := Prod.mk.inj hstate
  obtain ⟨htile, hrest⟩ := Prod.mk.inj hrest
  obtain ⟨hrender, hnext⟩ := Prod.mk.inj hrest
  obtain ⟨m', hm', htokens⟩ := Option.map_eq_some_iff.mp hnext
  obtain ⟨htiles, hrenders⟩ := Prod.mk.inj htokens
  have hreach : Reach (Metered.next fastConf) (Metered.Fits fastConf) (Metered.init 0) m := by
    apply reach_of_run hm
    intro m ev hnone p hfilling
    rw [hfilling] at hnone
    contradiction
  have hsize : 0 ≤ fastConf.tileSize := by decide
  have hsize' : 0 ≤ fastConf.renderSize := by decide
  obtain ⟨hrate, hrate'⟩ := configured_fastConf.rates_pos
  have hexact := Metered.exact_of_reach hrate hrate' hsize hsize' hreach
  have hfits : m.Fits fastConf (.act (.lock 0)) := by
    apply hexact.fits hrate hrate' hsize hsize' _ _ hm'
    · rw [hclock, htile]
      decide
    · rw [hclock, hrender]
      decide
  have hreach' := Reach.tail (.act (.lock 0)) hreach hfits hm'
  obtain ⟨hbounds, -, -, hlast, hlast', -⟩ :=
    topUps_exact configured_fastConf hsize hsize' hreach'
  exact ⟨m', hreach', htiles, hrenders, (hbounds _).2.1, hlast, hlast'⟩

/-- After `2 ^ 31` microseconds the number of tokens for tiles is stored as a negative number.
The bucket of the client has fewer than zero tokens then, and the time of the last fill-up for
tiles is before the start. -/
theorem topUps_overflow :
  Configured sampleRounding fastConf ∧
    ∃ m, Reach (Metered.next fastConf) anyStep (Metered.init 0) m ∧
      (m.state.pool.users sampleClient.hashkey).availableTiles < 0 ∧
      m.state.pool.lastTileFillup < 0
  := by
  have hrun : (Transition.run (Metered.next fastConf) (fun _ _ => true) (Metered.init 0)
      (fastEvents (2 ^ 31) ++ [.act (.lock 0)])).map (fun m =>
        ((m.state.pool.users sampleClient.hashkey).availableTiles,
          m.state.pool.lastTileFillup)) = some (-2 ^ 31, -2 ^ 31) := by
    decide +kernel
  obtain ⟨m, hm, hstate⟩ := Option.map_eq_some_iff.mp hrun
  obtain ⟨htiles, hlast⟩ := Prod.mk.inj hstate
  refine ⟨configured_fastConf, m, reach_of_run hm fun _ _ _ => trivial, ?_, ?_⟩
  · rw [htiles]
    decide
  · rw [hlast]
    decide

end DelayPool
