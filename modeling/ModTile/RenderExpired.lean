import Mathlib.Data.List.ReduceOption
import ModTile.Bytes.Bits
import ModTile.Config
import ModTile.Linked.Ascend
import ModTile.ObjectStore
import ModTile.Quadtree

/-!
# The program that expires tiles

The loop of `render_expired.c` over the lines of its input.  A line names a tile.  The program
takes the tile to the largest zoom level, and from there it goes up: the metatile of the tile and
the metatiles of its ancestors are deleted, touched or rendered again, if they exist.  It keeps the
metatiles that it has come to, and stops at the first one that it finds among them.

The metatiles of one map form a quadtree, of which `Tile.metatile` is the square.  What the program
does to the store and to the queue is the list of its calls.
-/

open Linked ObjectStore Quadtree

namespace RenderExpired

/-- The coordinates of a tile. -/
structure Tile where
  z : Int32
  x : Int32
  y : Int32
  deriving DecidableEq

/-- The options of the program, where `deleteFrom` and `touchFrom` may be missing. -/
structure Options where
  minZoom : Int32
  maxZoom : Int32
  deleteFrom : Option Int32
  touchFrom : Option Int32

/-- The calls of the functions of the store, the first of them with its result, and of
`enqueue`. -/
inductive Call where
  | tileStat (t : Tile) (s : StatInfo)
  | metatileDelete (t : Tile)
  | metatileExpire (t : Tile)
  | enqueue (t : Tile)
  deriving DecidableEq

/-- The tile of a call. -/
def Call.tile : Call → Tile
  | .tileStat t _ => t
  | .metatileDelete t => t
  | .metatileExpire t => t
  | .enqueue t => t

/-- The keys of the hash table, and the calls so far. -/
structure State where
  tileRequested : List Int64
  calls : List Call

/-- The loop that counts how often a number can be halved. -/
def excessLoop : ℕ → Int32 → Int32 → Int32
  | 0, excess, _ => excess
  | n + 1, excess, mt => if 1 < mt then excessLoop n (excess + 1) (mt >>> 1) else excess

/-- The number of zoom levels whose tiles are in one metatile. -/
def excessZoomlevels : Int32 := excessLoop 32 0 (Int32.ofNat metatile)

theorem excessZoomlevels_eq :
  excessZoomlevels = 3
  := by
  decide

/-- `tile_key`. -/
def tileKey (z x y : Int32) : Int64 :=
  z.toInt64 <<< 48 ||| (x &&& 0xFFFFFF).toInt64 <<< 24 ||| (y &&& 0xFFFFFF).toInt64

namespace Tile

/-- The key of the metatile of a tile. -/
def key (t : Tile) : Int64 :=
  tileKey (t.z - excessZoomlevels) (t.x >>> excessZoomlevels) (t.y >>> excessZoomlevels)

/-- The tile one zoom level above. -/
def up (t : Tile) : Tile := ⟨t.z - 1, t.x >>> 1, t.y >>> 1⟩

/-- The first of the tiles one zoom level below. -/
def down (t : Tile) : Tile := ⟨t.z + 1, t.x <<< 1, t.y <<< 1⟩

/-- The loop that takes a tile up to the zoom level `maxZoom`, for at most `n` levels. -/
def scaleDown (maxZoom : Int32) : ℕ → Tile → Tile
  | 0, t => t
  | n + 1, t => if maxZoom < t.z then scaleDown maxZoom n t.up else t

/-- The loop that takes a tile down to the zoom level `maxZoom`, for at most `n` levels. -/
def scaleUp (maxZoom : Int32) : ℕ → Tile → Tile
  | 0, t => t
  | n + 1, t => if t.z < maxZoom then scaleUp maxZoom n t.down else t

/-- The tile at the zoom level `maxZoom` with which the program starts. -/
def scale (maxZoom : Int32) (t : Tile) : Tile :=
  let t' := scaleDown maxZoom (t.z.toInt - maxZoom.toInt).toNat t
  scaleUp maxZoom (maxZoom.toInt - t'.z.toInt).toNat t'

end Tile

namespace Options

/-- The smallest zoom level that the program comes to. -/
def raisedMinZoom (o : Options) : Int32 :=
  if o.minZoom < excessZoomlevels then excessZoomlevels else o.minZoom

/-- Tiles of the zoom level `z` are deleted. -/
def deletes (o : Options) (z : Int32) : Bool := o.deleteFrom.any (· ≤ z)

/-- Tiles of the zoom level `z` are touched, if they are not deleted. -/
def touches (o : Options) (z : Int32) : Bool := o.touchFrom.any (· ≤ z)

/-- The flag `doRender`: there are threads to which tiles can be submitted. -/
def doRender (o : Options) : Bool :=
  o.touchFrom.any (o.raisedMinZoom < ·) || o.deleteFrom.any (o.raisedMinZoom < ·) ||
    (o.touchFrom.isNone && o.deleteFrom.isNone)

/-- The calls for a tile whose metatile has not been requested before. -/
def callsFor (o : Options) (t : Tile) (s : StatInfo) : List Call :=
  .tileStat t s ::
    if 0 < s.size then
      if o.deletes t.z then [.metatileDelete t]
      else if o.touches t.z then [.metatileExpire t]
      else if o.doRender then [.enqueue t]
      else []
    else []

end Options

/-- What the store reports about a tile after the given calls. -/
abbrev Stat : Type := List Call → Tile → StatInfo

variable (o : Options) (stat : Stat)

/-- The body of the loop over the zoom levels. -/
def process (s : State) (t : Tile) : State where
  tileRequested := t.key :: s.tileRequested
  calls := s.calls ++ o.callsFor t (stat s.calls t)

/-- The loop over the zoom levels, for at most `n` of them. -/
def visit : ℕ → State → Tile → State
  | 0, s, _ => s
  | n + 1, s, t =>
      if o.raisedMinZoom ≤ t.z then
        if t.key ∈ s.tileRequested then s else visit n (process o stat s t) t.up
      else s

/-- The number of zoom levels from the one of a tile up to the smallest one. -/
def levels (t : Tile) : ℕ := (t.z.toInt - o.raisedMinZoom.toInt + 1).toNat

/-- A round of the loop over the input.  A line that is not a tile is discarded. -/
def readLine (s : State) : Option Tile → State
  | none => s
  | some t => visit o stat (levels o (t.scale o.maxZoom)) s (t.scale o.maxZoom)

/-- The program, for the lines of the input. -/
def run (lines : List (Option Tile)) : State := lines.foldl (readLine o stat) ⟨[], []⟩

/-! ### Keys -/

section Keys

variable {z x y z' x' y' : Int32}

theorem and_mask_of_lt (hx : 0 ≤ x.toInt) (hx' : x.toInt < 2 ^ 24) :
  x &&& 0xFFFFFF = x
  := by
  have hmask : (0xFFFFFF : Int32) = Bits.mask 24 := by
    decide
  apply Int32.toInt_inj.mp
  rw [hmask, Bits.toInt_and_mask (by decide), Int.emod_eq_of_lt hx hx']

theorem toNat_toInt64 (hx : 0 ≤ x.toInt) :
  (x.toInt64.toBitVec.toNat : ℤ) = x.toInt
  := by
  have h : x.toInt64.toBitVec.toInt = x.toInt := Int32.toInt_toInt64 x
  rw [← h] at hx ⊢
  exact Bits.toNat_of_toInt_nonneg hx

/-- Small numbers do not overlap in a key. -/
theorem toNat_tileKey (hz : 0 ≤ z.toInt) (hz' : z.toInt < 2 ^ 15) (hx : 0 ≤ x.toInt)
    (hx' : x.toInt < 2 ^ 24) (hy : 0 ≤ y.toInt) (hy' : y.toInt < 2 ^ 24) :
  ((tileKey z x y).toBitVec.toNat : ℤ) = z.toInt * 2 ^ 48 + x.toInt * 2 ^ 24 + y.toInt
  := by
  have hzn := toNat_toInt64 hz
  have hxn := toNat_toInt64 hx
  have hyn := toNat_toInt64 hy
  have hxy : x.toInt64.toBitVec.toNat <<< 24 < 2 ^ 48 := by
    rw [Nat.shiftLeft_eq]
    omega
  have hzxy : z.toInt64.toBitVec.toNat <<< 48 + x.toInt64.toBitVec.toNat <<< 24 =
      (z.toInt64.toBitVec.toNat * 2 ^ 24 + x.toInt64.toBitVec.toNat) <<< 24 := by
    simp only [Nat.shiftLeft_eq]
    ring
  have hshift : (z.toInt64 <<< 48).toBitVec.toNat = z.toInt64.toBitVec.toNat <<< 48 := by
    have h : (z.toInt64 <<< 48).toBitVec = z.toInt64.toBitVec <<< 48 := rfl
    rw [h, BitVec.toNat_shiftLeft, Nat.mod_eq_of_lt]
    rw [Nat.shiftLeft_eq]
    omega
  have hshift' : (x.toInt64 <<< 24).toBitVec.toNat = x.toInt64.toBitVec.toNat <<< 24 := by
    have h : (x.toInt64 <<< 24).toBitVec = x.toInt64.toBitVec <<< 24 := rfl
    rw [h, BitVec.toNat_shiftLeft, Nat.mod_eq_of_lt]
    omega
  rw [tileKey, and_mask_of_lt hx hx', and_mask_of_lt hy hy', Int64.toBitVec_or, BitVec.toNat_or,
    Int64.toBitVec_or, BitVec.toNat_or, hshift, hshift', ← Nat.shiftLeft_add_eq_or_of_lt hxy, hzxy,
    ← Nat.shiftLeft_add_eq_or_of_lt, Nat.shiftLeft_eq]
  · push_cast
    rw [hzn, hxn, hyn]
    ring
  · omega

end Keys

/-! ### Tiles as squares -/

namespace Tile

variable {t t' : Tile} {n : ℕ} {maxZoom : Int32}

/-- The tile as a square of the map. -/
def square (t : Tile) : Square := ⟨t.z.toInt, t.x.toInt, t.y.toInt⟩

/-- The metatile of a tile. -/
def metatile (t : Tile) : Square := t.square.block 3

/-- A tile that the loop over the zoom levels can come to. -/
structure Proper (t : Tile) : Prop where
  inside : t.square.Inside
  zoom_ge : 3 ≤ t.z.toInt
  zoom_le : t.z.toInt ≤ 20

theorem Proper.lt_two_pow (h : t.Proper) :
  t.x.toInt < 2 ^ 20 ∧ t.y.toInt < 2 ^ 20
  := h.inside.lt_two_pow h.zoom_le

theorem Proper.toNat_key (h : t.Proper) :
  (t.key.toBitVec.toNat : ℤ) =
    (t.z.toInt - 3) * 2 ^ 48 + t.x.toInt / 2 ^ 3 * 2 ^ 24 + t.y.toInt / 2 ^ 3
  := by
  have hz : (t.z - 3).toInt = t.z.toInt - 3 :=
    Bits.toInt_sub_of_nonneg h.inside.level_nonneg (by decide)
  have hx : (t.x >>> 3).toInt = t.x.toInt / 2 ^ 3 := Bits.toInt_shiftRight 3
  have hy : (t.y >>> 3).toInt = t.y.toInt / 2 ^ 3 := Bits.toInt_shiftRight 3
  obtain ⟨hxlt, hylt⟩ := h.lt_two_pow
  have hxge : 0 ≤ t.x.toInt := h.inside.x_nonneg
  have hyge : 0 ≤ t.y.toInt := h.inside.y_nonneg
  have hge := h.zoom_ge
  have hle := h.zoom_le
  rw [key, excessZoomlevels_eq, toNat_tileKey, hz, hx, hy]
  all_goals omega

/-- The keys of two tiles are equal when they are in one metatile. -/
theorem Proper.key_eq_iff (h : t.Proper) (h' : t'.Proper) :
  t.key = t'.key ↔ t.metatile = t'.metatile
  := by
  have hkey := h.toNat_key
  have hkey' := h'.toNat_key
  constructor
  · intro heq
    rw [heq, hkey'] at hkey
    obtain ⟨hx, hy⟩ := h.lt_two_pow
    obtain ⟨hx', hy'⟩ := h'.lt_two_pow
    have hxge : 0 ≤ t.x.toInt := h.inside.x_nonneg
    have hyge : 0 ≤ t.y.toInt := h.inside.y_nonneg
    have hxge' : 0 ≤ t'.x.toInt := h'.inside.x_nonneg
    have hyge' : 0 ≤ t'.y.toInt := h'.inside.y_nonneg
    ext
    all_goals simp only [metatile, square, Square.block]
    all_goals omega
  · intro heq
    obtain ⟨hz, hx, hy⟩ := Square.mk.inj heq
    apply Int64.toBitVec_inj.mp
    apply BitVec.eq_of_toNat_eq
    simp only [square] at hz hx hy
    rw [hz, hx, hy, ← hkey'] at hkey
    exact Int.ofNat_inj.mp hkey

theorem square_up (h : 0 ≤ t.z.toInt) :
  t.up.square = t.square.ancestor 1
  := by
  ext
  · exact Bits.toInt_sub_of_nonneg h (by decide)
  · exact Bits.toInt_shiftRight 1
  · exact Bits.toInt_shiftRight 1

theorem square_down (h : t.square.Inside) (hz : t.z.toInt < 30) :
  t.down.square = t.square.corner 1
  := by
  have hdouble : ∀ {x : Int32}, 0 ≤ x.toInt → x.toInt < 2 ^ 30 →
      (x <<< 1).toInt = x.toInt * 2 ^ 1 := by
    intro x hx hx'
    rw [Bits.toInt_shiftLeft_one hx hx', mul_comm, pow_one]
  have hz30 : t.square.level ≤ (30 : ℕ) := hz.le
  obtain ⟨hx, hy⟩ := h.lt_two_pow hz30
  ext
  · apply Bits.toInt_add_of_nonneg h.level_nonneg (by decide)
    exact (add_lt_add_left hz 1).trans (by decide)
  · exact hdouble h.x_nonneg hx
  · exact hdouble h.y_nonneg hy

/-- The first loop over the zoom levels goes up to `maxZoom`. -/
theorem square_scaleDown (hmax : 0 ≤ maxZoom.toInt) (hn : t.z.toInt = maxZoom.toInt + n) :
  (scaleDown maxZoom n t).square = t.square.ancestor n
  := by
  induction n generalizing t with
  | zero => exact Square.ancestor_zero.symm
  | succ n ih =>
      have hlt : maxZoom < t.z := by
        rw [Int32.lt_iff_toInt_lt]
        omega
      have hup : t.up.square = t.square.ancestor 1 := square_up (by omega)
      have hz : t.up.z.toInt = maxZoom.toInt + n := by
        rw [show t.up.z.toInt = t.z.toInt - 1 from congrArg Square.level hup]
        omega
      rw [scaleDown, if_pos hlt, ih hz, hup, Square.ancestor_ancestor, Nat.add_comm]

/-- The second loop over the zoom levels goes down to `maxZoom`. -/
theorem square_scaleUp (h : t.square.Inside) (hmax : maxZoom.toInt ≤ 20)
    (hn : t.z.toInt + n = maxZoom.toInt) :
  (scaleUp maxZoom n t).square = t.square.corner n
  := by
  induction n generalizing t with
  | zero => exact Square.corner_zero.symm
  | succ n ih =>
      have hlt : t.z < maxZoom := by
        rw [Int32.lt_iff_toInt_lt]
        omega
      have hdown : t.down.square = t.square.corner 1 := square_down h (by omega)
      have hz : t.down.z.toInt + n = maxZoom.toInt := by
        rw [show t.down.z.toInt = t.z.toInt + 1 from congrArg Square.level hdown]
        omega
      have hinside : t.down.square.Inside := by
        rw [hdown]
        exact h.corner
      rw [scaleUp, if_pos hlt, ih hinside hz, hdown, Square.corner_corner, Nat.add_comm]

theorem square_scale_of_le (hmax : 0 ≤ maxZoom.toInt) (hle : maxZoom.toInt ≤ t.z.toInt) :
  (t.scale maxZoom).square = t.square.ancestor (t.z.toInt - maxZoom.toInt).toNat
  := by
  have hdown : (scaleDown maxZoom (t.z.toInt - maxZoom.toInt).toNat t).square =
      t.square.ancestor (t.z.toInt - maxZoom.toInt).toNat :=
    square_scaleDown hmax (by omega)
  have hz : (scaleDown maxZoom (t.z.toInt - maxZoom.toInt).toNat t).z.toInt = maxZoom.toInt := by
    have hlevel : _ = t.z.toInt - _ := congrArg Square.level hdown
    rw [square] at hlevel
    dsimp only at hlevel
    omega
  rw [scale, hz, sub_self]
  exact hdown

theorem square_scale_of_lt (h : t.square.Inside) (hmax : maxZoom.toInt ≤ 20)
    (hlt : t.z.toInt < maxZoom.toInt) :
  (t.scale maxZoom).square = t.square.corner (maxZoom.toInt - t.z.toInt).toNat
  := by
  have hdown : scaleDown maxZoom (t.z.toInt - maxZoom.toInt).toNat t = t := by
    rw [Int.toNat_of_nonpos (by omega), scaleDown]
  rw [scale, hdown]
  exact square_scaleUp h hmax (by omega)

/-- The tile with which the program starts is inside the map and has the largest zoom level, and
from the zoom level of the given tile on, its ancestors are those of the given tile. -/
theorem scale_spec (h : t.square.Inside) (hmax : 0 ≤ maxZoom.toInt) (hmax' : maxZoom.toInt ≤ 20) :
  (t.scale maxZoom).square.Inside ∧ (t.scale maxZoom).z.toInt = maxZoom.toInt ∧
    ∀ k : ℤ, k ≤ t.z.toInt → k ≤ maxZoom.toInt →
      (t.scale maxZoom).square.ancestor (maxZoom.toInt - k).toNat =
        t.square.ancestor (t.z.toInt - k).toNat
  := by
  have hlevel : t.square.level = t.z.toInt := rfl
  rcases le_or_gt maxZoom.toInt t.z.toInt with hle | hlt
  · have hscale := square_scale_of_le hmax hle
    have hz : (t.scale maxZoom).z.toInt = t.z.toInt - _ := congrArg Square.level hscale
    rw [hscale]
    use h.ancestor (by omega), by omega
    intro k hk hk'
    rw [Square.ancestor_ancestor]
    congr 1
    omega
  · have hscale := square_scale_of_lt h hmax' hlt
    have hz : (t.scale maxZoom).z.toInt = t.z.toInt + _ := congrArg Square.level hscale
    rw [hscale]
    use h.corner, by omega
    intro k hk hk'
    have hsum : (maxZoom.toInt - k).toNat =
        (maxZoom.toInt - t.z.toInt).toNat + (t.z.toInt - k).toNat := by
      omega
    rw [hsum, Square.ancestor_corner]

end Tile

/-! ### The calls for a metatile -/

section Calls

variable {o : Options} {t : Tile} {st : StatInfo} {c : Call}

/-- The smallest zoom level is at least the number of zoom levels in a metatile. -/
theorem Options.toInt_raisedMinZoom :
  o.raisedMinZoom.toInt = max 3 o.minZoom.toInt
  := by
  rw [raisedMinZoom, excessZoomlevels_eq]
  have h3 : (3 : Int32).toInt = 3 := by
    decide
  split_ifs with hlt
  · rw [Int32.lt_iff_toInt_lt] at hlt
    omega
  · rw [Int32.lt_iff_toInt_lt] at hlt
    omega

/-- When a tile is neither deleted nor touched, there are threads to which it can be submitted. -/
theorem Options.doRender_of_not (hz : o.raisedMinZoom ≤ t.z) (hdelete : o.deletes t.z = false)
    (htouch : o.touches t.z = false) :
  o.doRender = true
  := by
  have hlt : ∀ {d : Int32}, ¬ d ≤ t.z → o.raisedMinZoom < d := by
    intro d hd
    exact Int32.lt_of_le_of_lt hz (Int32.not_le.mp hd)
  rw [deletes] at hdelete
  rw [touches] at htouch
  rw [doRender]
  cases hd : o.deleteFrom with
  | some d =>
      simp only [hd, Option.any_some, decide_eq_false_iff_not] at hdelete
      simp [hlt hdelete]
  | none =>
      cases ht : o.touchFrom with
      | some d =>
          simp only [ht, Option.any_some, decide_eq_false_iff_not] at htouch
          simp [hlt htouch]
      | none => rfl

/-- A metatile that exists is deleted, touched or submitted. -/
theorem Options.callsFor_eq (hz : o.raisedMinZoom ≤ t.z) :
  o.callsFor t st =
    if 0 < st.size then
      [.tileStat t st, if o.deletes t.z then .metatileDelete t
        else if o.touches t.z then .metatileExpire t else .enqueue t]
    else [.tileStat t st]
  := by
  rw [callsFor]
  split_ifs with hsize hdelete htouch hrender
  · rfl
  · rfl
  · rfl
  · exact absurd (doRender_of_not hz (by simpa using hdelete) (by simpa using htouch)) hrender
  · rfl

/-- All the calls for a tile are about this tile. -/
theorem Options.tile_of_mem_callsFor (hc : c ∈ o.callsFor t st) :
  c.tile = t
  := by
  rw [callsFor, List.mem_cons] at hc
  rcases hc with rfl | hc
  · rfl
  · split_ifs at hc
    all_goals simp at hc
    all_goals rw [hc, Call.tile]

end Calls

/-! ### Runs -/

section Runs

variable {o : Options} {stat : Stat} {s : State} {seen : List Square} {t : Tile} {n : ℕ}
  {lines : List (Option Tile)}

/-- The calls for the tiles that the program has come to. -/
def callsOf (o : Options) (visits : List (Tile × StatInfo)) : List Call :=
  visits.flatMap fun v => o.callsFor v.1 v.2

/-- The program has processed the metatiles `seen`, in this order. -/
structure Represents (o : Options) (stat : Stat) (s : State) (seen : List Square) : Prop where
  requested : ∀ {t : Tile}, t.Proper → (t.key ∈ s.tileRequested ↔ t.metatile ∈ seen)
  calls : ∃ visits : List (Tile × StatInfo), s.calls = callsOf o visits ∧
    visits.map (fun v => v.1.metatile) = seen ∧
    ∀ v₁ v v₂, visits = v₁ ++ v :: v₂ →
      o.raisedMinZoom ≤ v.1.z ∧ v.2 = stat (callsOf o v₁) v.1

theorem Represents.process (h : Represents o stat s seen) (ht : t.Proper)
    (hz : o.raisedMinZoom ≤ t.z) :
  Represents o stat (process o stat s t) (seen ++ [t.metatile])
  := by
  constructor
  case requested =>
    intro t' ht'
    rw [RenderExpired.process, List.mem_cons, h.requested ht', ht'.key_eq_iff ht, List.mem_append,
      List.mem_singleton, or_comm]
  case calls =>
    obtain ⟨visits, hcalls, hseen, hvisits⟩ := h.calls
    use visits ++ [(t, stat s.calls t)]
    constructor
    · rw [RenderExpired.process, callsOf, List.flatMap_append, ← callsOf, ← hcalls,
        List.flatMap_singleton]
    constructor
    · rw [List.map_append, hseen]
      rfl
    · intro v₁ v v₂ hsplit
      rcases List.eq_nil_or_concat v₂ with rfl | ⟨v₂, w, rfl⟩
      · obtain ⟨rfl, hv⟩ := List.append_inj' hsplit rfl
        obtain ⟨rfl, -⟩ := List.cons.inj hv
        use hz
        rw [hcalls]
      · rw [List.concat_eq_append, ← List.cons_append, ← List.append_assoc] at hsplit
        obtain ⟨hsplit, -⟩ := List.append_inj' hsplit rfl
        exact hvisits v₁ v v₂ hsplit

/-- The loop over the zoom levels is an ascent in the quadtree of the metatiles. -/
theorem Represents.visit (h : Represents o stat s seen) (ht : t.square.Inside)
    (hmax : t.z.toInt ≤ 20) (hn : t.z.toInt + 1 = o.raisedMinZoom.toInt + n) :
  Represents o stat (visit o stat n s t) (ascend seen (t.metatile.path n))
  := by
  induction n generalizing s seen t with
  | zero => exact h
  | succ n ih =>
      have hlow : o.raisedMinZoom ≤ t.z := by
        rw [Int32.le_iff_toInt_le]
        omega
      have hge : 3 ≤ t.z.toInt := by
        rw [Int32.le_iff_toInt_le, Options.toInt_raisedMinZoom] at hlow
        omega
      have hproper : t.Proper := ⟨ht, hge, hmax⟩
      have hup : t.up.square = t.square.ancestor 1 := Tile.square_up ht.level_nonneg
      have hz : t.up.z.toInt = t.z.toInt - 1 := congrArg Square.level hup
      have hinside : t.up.square.Inside := by
        rw [hup]
        apply ht.ancestor
        exact le_trans (by decide) hge
      have hmeta : t.up.metatile = t.metatile.ancestor 1 := by
        rw [Tile.metatile, hup, Square.block_ancestor, Tile.metatile]
      rw [RenderExpired.visit, if_pos hlow, Square.path, ascend]
      simp only [h.requested hproper]
      split_ifs with hseen
      · exact h
      · rw [← hmeta]
        apply ih (h.process hproper hlow) hinside
        · omega
        · omega

theorem represents_init :
  Represents o stat ⟨[], []⟩ []
  := by
  constructor
  case requested =>
    intro t _
    simp
  case calls =>
    use []
    simp [callsOf]

/-- The metatiles to which a line of the input leads, if nothing has been requested before. -/
def metatiles (o : Options) (t : Tile) : List Square :=
  (t.scale o.maxZoom).metatile.path (levels o (t.scale o.maxZoom))

/-- The loop over the input makes an ascent for every line that is a tile. -/
theorem Represents.foldl_readLine (h : Represents o stat s seen)
    (hmin : o.raisedMinZoom.toInt ≤ o.maxZoom.toInt)
    (hmax : o.maxZoom.toInt ≤ 20) (hlines : ∀ t, some t ∈ lines → t.square.Inside) :
  Represents o stat (lines.foldl (readLine o stat) s)
    (ascents seen (lines.reduceOption.map (metatiles o)))
  := by
  induction lines generalizing s seen with
  | nil => exact h
  | cons line lines ih =>
      have hrest : ∀ t, some t ∈ lines → t.square.Inside := fun t ht =>
        hlines t (List.mem_cons_of_mem line ht)
      cases line with
      | none => exact ih h hrest
      | some t =>
          have hlow := o.toInt_raisedMinZoom
          obtain ⟨hinside, hz, -⟩ :=
            Tile.scale_spec (hlines t List.mem_cons_self) (by omega) hmax
          rw [List.foldl_cons, List.reduceOption_cons_of_some, List.map_cons, ascents,
            List.foldl_cons]
          apply ih _ hrest
          apply h.visit hinside
          · omega
          · rw [levels]
            omega

/-- The metatiles to which a line leads form a chain, which contains the metatile of every ancestor
of the tile. -/
theorem metatiles_spec (hmin : o.raisedMinZoom.toInt ≤ o.maxZoom.toInt)
    (hmax : o.maxZoom.toInt ≤ 20) (ht : t.square.Inside) :
  (∃ a, Chain (Square.parent o.raisedMinZoom.toInt) a (metatiles o t)) ∧
    ∀ k : ℤ, o.raisedMinZoom.toInt ≤ k → k ≤ t.z.toInt → k ≤ o.maxZoom.toInt →
      (t.square.ancestor (t.z.toInt - k).toNat).block 3 ∈ metatiles o t
  := by
  have hlow := o.toInt_raisedMinZoom
  obtain ⟨-, hz, hancestor⟩ := Tile.scale_spec ht (by omega) hmax
  have hlevels : levels o (t.scale o.maxZoom) =
      (o.maxZoom.toInt - o.raisedMinZoom.toInt).toNat + 1 := by
    rw [levels]
    omega
  rw [metatiles, hlevels]
  constructor
  · use some (t.scale o.maxZoom).metatile
    apply Square.chain_path
    have hlevel : (t.scale o.maxZoom).metatile.level = o.maxZoom.toInt := hz
    omega
  · intro k hk hkz hkmax
    rw [← hancestor k hkz hkmax, Square.block_ancestor]
    apply Square.mem_path.mpr
    use (o.maxZoom.toInt - k).toNat
    constructor
    · omega
    · rfl

/-- In a list of calls without repeated metatiles, the calls for one of them are in one place. -/
theorem tile_ne_of_nodup {v₁ v₂ : List (Tile × StatInfo)} {v : Tile × StatInfo} {c : Call}
    (h : ((v₁ ++ v :: v₂).map fun v => v.1.metatile).Nodup)
    (hc : c ∈ callsOf o v₁ ++ callsOf o v₂) :
  c.tile.metatile ≠ v.1.metatile
  := by
  rw [callsOf, callsOf, ← List.flatMap_append] at hc
  obtain ⟨w, hw, hc⟩ := List.mem_flatMap.mp hc
  rw [Options.tile_of_mem_callsFor hc]
  rw [List.map_append, List.map_cons, List.nodup_middle, List.nodup_cons, ← List.map_append] at h
  intro heq
  apply h.1
  rw [← heq]
  exact List.mem_map_of_mem hw

/-- Whatever the store reports, every metatile that contains an ancestor of a tile of the input, at
a zoom level between the smallest and the largest one, is processed once: there is one place in the
list of the calls where the program asks the store about it, and if it exists it is then deleted,
touched or submitted.  No other call is about this metatile. -/
theorem metatile_processed_once (hmax : o.maxZoom.toInt ≤ maxZoom)
    (hlines : ∀ t, some t ∈ lines → t.square.Inside) (ht : some t ∈ lines) {k : ℤ}
    (hk : max o.minZoom.toInt 3 ≤ k) (hk' : k ≤ min t.z.toInt o.maxZoom.toInt) :
  ∃ before t' after,
    t'.metatile = (t.square.ancestor (t.z.toInt - k).toNat).block 3 ∧
    (run o stat lines).calls =
      before ++
        (if 0 < (stat before t').size then
          [.tileStat t' (stat before t'), if o.deletes t'.z then .metatileDelete t'
            else if o.touches t'.z then .metatileExpire t' else .enqueue t']
        else [.tileStat t' (stat before t')]) ++ after ∧
    ∀ c ∈ before ++ after,
      c.tile.metatile ≠ (t.square.ancestor (t.z.toInt - k).toNat).block 3
  := by
  have hmax20 : o.maxZoom.toInt ≤ 20 := hmax
  have hlow := o.toInt_raisedMinZoom
  have hmin : o.raisedMinZoom.toInt ≤ o.maxZoom.toInt := by
    omega
  have hinit : Represents o stat ⟨[], []⟩ [] := represents_init
  have hrun := hinit.foldl_readLine hmin hmax20 hlines
  obtain ⟨visits, hcalls, hseen, hvisits⟩ := hrun.calls
  have hnodup : (visits.map fun v => v.1.metatile).Nodup := by
    rw [hseen]
    exact nodup_ascents List.nodup_nil
  have hmem : (t.square.ancestor (t.z.toInt - k).toNat).block 3 ∈
      visits.map fun v => v.1.metatile := by
    rw [hseen]
    have hclosed : Closed (Square.parent o.raisedMinZoom.toInt) [] := by
      intro a ha
      contradiction
    have hchain : ∀ l ∈ lines.reduceOption.map (metatiles o),
        ∃ a, Chain (Square.parent o.raisedMinZoom.toInt) a l := by
      intro l hl
      obtain ⟨t, ht, rfl⟩ := List.mem_map.mp hl
      exact (metatiles_spec hmin hmax20 (hlines t (List.reduceOption_mem_iff.mp ht))).1
    apply (hclosed.mem_ascents hchain).mpr
    right
    use metatiles o t, List.mem_map_of_mem (List.reduceOption_mem_iff.mpr ht)
    apply (metatiles_spec hmin hmax20 (hlines t ht)).2 k
    · omega
    · omega
    · omega
  obtain ⟨v, hv, hmeta⟩ := List.mem_map.mp hmem
  obtain ⟨v₁, v₂, rfl⟩ := List.append_of_mem hv
  obtain ⟨hz, hstat⟩ := hvisits v₁ v v₂ rfl
  use callsOf o v₁, v.1, callsOf o v₂, hmeta
  constructor
  · rw [run, hcalls, ← hstat, ← Options.callsFor_eq hz, List.append_assoc, callsOf,
      List.flatMap_append, List.flatMap_cons, callsOf, callsOf]
  · intro c hc
    rw [← hmeta]
    exact tile_ne_of_nodup hnodup hc

/-- Metatiles are deleted from zoom level 18 on and touched from zoom level 16 on. -/
def sampleOptions : Options := ⟨0, 19, some 18, some 16⟩

/-- Two tiles whose ancestors are in one metatile from zoom level 15 on, with a line between them
that is discarded. -/
def sampleLines : List (Option Tile) := [some ⟨16, 56715, 4908⟩, none, some ⟨17, 113420, 9816⟩]

/-- Every metatile exists. -/
def sampleStat : Stat := fun _ _ => { StatInfo.missing with size := 1 }

/-- The metatile at zoom level 15, which contains ancestors of both tiles, is submitted once. -/
theorem metatile_processed_once_sample :
  ∃ before t' after, t'.metatile = ⟨15, 3544, 306⟩ ∧
    (run sampleOptions sampleStat sampleLines).calls =
      before ++ [.tileStat t' { StatInfo.missing with size := 1 }, .enqueue t'] ++ after ∧
    ∀ c ∈ before ++ after, c.tile.metatile ≠ ⟨15, 3544, 306⟩
  := by
  have hlines : ∀ t, some t ∈ sampleLines → t.square.Inside := by
    intro t ht
    simp only [sampleLines, List.mem_cons, Option.some.injEq, reduceCtorEq, List.not_mem_nil,
      or_false, false_or] at ht
    rcases ht with rfl | rfl
    · constructor <;> decide
    · constructor <;> decide
  have hmem : some ⟨17, 113420, 9816⟩ ∈ sampleLines := by
    decide
  obtain ⟨before, t', after, hmeta, hcalls, hother⟩ :=
    metatile_processed_once (o := sampleOptions) (k := 15) (by decide) hlines hmem (by decide)
      (by decide)
  have hz : t'.z = 15 := Int32.toInt_inj.mp (congrArg Square.level hmeta)
  rw [hz] at hcalls
  exact ⟨before, t', after, hmeta, hcalls, hother⟩

end Runs

end RenderExpired
