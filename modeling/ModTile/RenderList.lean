import Mathlib.Data.Rat.Floor
import Mathlib.Tactic.NormNum
import ModTile.ObjectStore
import ModTile.Stride

/-!
# Rendering all tiles of a range

`render_list --all` of `render_list.c`.  For every zoom level the program goes over a rectangle of
tiles in steps of a metatile in both directions, and asks for one tile of each metatile that it
comes to.  The rectangle is given by the options for tile coordinates, by those for latitudes and
longitudes, or is the whole level.

For latitudes and longitudes the loops begin at the corner of a metatile.  For tile coordinates
they begin at the tile that is given.
-/

namespace RenderList

open Stride ObjectStore

/-! ### The options -/

/-- The options for latitudes and longitudes, when all four are passed. -/
structure Box where
  minLat : ℚ
  maxLat : ℚ
  minLon : ℚ
  maxLon : ℚ
  maxLat_le : maxLat ≤ 85.0511
  minLon_ge : -180 ≤ minLon

/-- The options that `--all` uses.  The numbers are those that `min_max_int_opt` accepts, and
`none` is an option that is not passed. -/
structure Options where
  force : Bool
  minZoom : Fin (maxZoom + 1)
  maxZoom : Fin (maxZoom + 1)
  minX : Option ℕ
  maxX : Option ℕ
  minY : Option ℕ
  maxY : Option ℕ
  box : Option Box

/-- The reasons why options are refused. -/
inductive OptionError where
  | zooms (minZoom maxZoom : ℕ)
  | boxWithTiles
  | lats (minLat maxLat : ℚ)
  | lons (minLon maxLon : ℚ)
  | zoomsDiffer
  | xs (minX maxX : ℕ)
  | ys (minY maxY : ℕ)
  | range (lz : ℕ)

/-- The text that is logged, where `showDouble` prints a number for `%f`. -/
def OptionError.message (showDouble : ℚ → String) : OptionError → String
  | zooms minZoom maxZoom =>
      "Specified min zoom (" ++ toString minZoom ++ ") is larger than max zoom (" ++
        toString maxZoom ++ ")."
  | boxWithTiles =>
      "min-lat, min-lon, max-lat & max-lon cannot be used together with min-x, max-x, " ++
        "min-y, or max-y"
  | lats minLat maxLat =>
      "Specified min-lat (" ++ showDouble minLat ++ ") is larger than max-lat (" ++
        showDouble maxLat ++ ")."
  | lons minLon maxLon =>
      "Specified min-lon (" ++ showDouble minLon ++ ") is larger than max-lon (" ++
        showDouble maxLon ++ ")."
  | zoomsDiffer =>
      "min-zoom must be equal to max-zoom when using min-x, max-x, min-y, or max-y options"
  | xs minX maxX =>
      "Specified min-x (" ++ toString minX ++ ") is larger than max-x (" ++ toString maxX ++ ")."
  | ys minY maxY =>
      "Specified min-y (" ++ toString minY ++ ") is larger than max-y (" ++ toString maxY ++ ")."
  | range lz =>
      "Invalid range, x and y values must be <= " ++ toString lz ++ " (2^zoom-1)"

namespace Options

variable (o : Options)

/-- One of the options for tile coordinates is passed. -/
def tilesPassed : Bool :=
  o.minX.isSome || o.minY.isSome || o.maxX.isSome || o.maxY.isSome

/-- The largest coordinate of the smallest zoom level. -/
def lz : ℕ := 2 ^ o.minZoom.val - 1

/-- The conditions under which latitudes and longitudes are refused, in the order in which they
are checked. -/
def boxChecks (b : Box) : List (Bool × OptionError) :=
  [(o.tilesPassed, .boxWithTiles),
    (b.maxLat < b.minLat, .lats b.minLat b.maxLat),
    (b.maxLon < b.minLon, .lons b.minLon b.maxLon)]

/-- The conditions under which tile coordinates are refused, in the order in which they are
checked. -/
def tileChecks : List (Bool × OptionError) :=
  [(o.tilesPassed && o.minZoom ≠ o.maxZoom, .zoomsDiffer),
    (o.minX.isSome && o.maxX.isSome && o.maxX.getD 0 < o.minX.getD 0,
      .xs (o.minX.getD 0) (o.maxX.getD 0)),
    (o.minY.isSome && o.maxY.isSome && o.maxY.getD 0 < o.minY.getD 0,
      .ys (o.minY.getD 0) (o.maxY.getD 0)),
    (o.minZoom = o.maxZoom && (o.minX.getD 0 > o.lz || o.minY.getD 0 > o.lz ||
      o.maxX.getD o.lz > o.lz || o.maxY.getD o.lz > o.lz), .range o.lz)]

/-- The conditions under which options are refused, in the order in which they are checked. -/
def checks : List (Bool × OptionError) :=
  (decide (o.maxZoom < o.minZoom), .zooms o.minZoom o.maxZoom) ::
    (o.box.elim [] o.boxChecks ++ o.tileChecks)

/-- The first reason why the options are refused. -/
def refused : Option OptionError :=
  (o.checks.find? Prod.fst).map Prod.snd

end Options

/-! ### The loops -/

/-- The functions for the tile at a longitude and a latitude.  They are not negative for the
values that `min_max_double_opt` accepts. -/
structure Projection where
  lon2tilex : ℚ → ℕ → ℤ
  lat2tiley : ℚ → ℕ → ℤ
  lon2tilex_nonneg : ∀ lon z, -180 ≤ lon → 0 ≤ lon2tilex lon z
  lat2tiley_nonneg : ∀ lat z, lat ≤ 85.0511 → 0 ≤ lat2tiley lat z

/-- A rectangle of tiles. -/
structure Range where
  minX : ℤ
  minY : ℤ
  maxX : ℤ
  maxY : ℤ

/-- A tile is in a rectangle. -/
def Range.Contains (r : Range) (x y : ℤ) : Prop :=
  (r.minX ≤ x ∧ x ≤ r.maxX) ∧ r.minY ≤ y ∧ y ≤ r.maxY

/-- A tile, with its coordinates and the zoom level. -/
structure Tile where
  x : ℤ
  y : ℤ
  z : ℕ
  deriving DecidableEq

/-- The metatile of a tile. -/
def Tile.block (t : Tile) : ℤ × ℤ × ℕ :=
  (t.x / metatile, t.y / metatile, t.z)

section Program

variable (p : Projection) (o : Options) (stat : Tile → StatInfo)

/-- The rectangle of the loops for a zoom level. -/
def levelRange (z : ℕ) : Range :=
  let currentMaxX : ℤ := (o.maxX.getD (2 ^ z - 1) : ℕ)
  let currentMaxY : ℤ := (o.maxY.getD (2 ^ z - 1) : ℕ)
  match o.box with
  | none => ⟨(o.minX.getD 0 : ℕ), (o.minY.getD 0 : ℕ), currentMaxX, currentMaxY⟩
  | some b =>
      let maxXTmp := p.lon2tilex b.maxLon z
      let maxYTmp := p.lat2tiley b.minLat z
      let minXTmp := p.lon2tilex b.minLon z
      let minYTmp := p.lat2tiley b.maxLat z
      ⟨minXTmp - minXTmp.tmod metatile, minYTmp - minYTmp.tmod metatile,
        min maxXTmp (2 ^ z - 1), min maxYTmp (2 ^ z - 1)⟩

/-- What the program has done: the tiles that it has asked for, and the two counters. -/
structure Progress where
  enqueued : List Tile
  numRender : ℕ
  numAll : ℕ

/-- A tile is asked for when this is forced, or the tile is missing or expired. -/
def renders (t : Tile) : Bool :=
  o.force || (stat t).size < 0 || (stat t).expired ≠ 0

/-- The body of the loops. -/
def visit (g : Progress) (t : Tile) : Progress :=
  if renders o stat t then ⟨g.enqueued ++ [t], g.numRender + 1, g.numAll + 1⟩
  else { g with numAll := g.numAll + 1 }

theorem metatile_pos :
  0 < metatile
  := by
  decide

/-- The values of the variable of a loop. -/
def loopValues (first last : ℤ) : List ℤ := stride metatile metatile_pos first last

/-- The loop over `y`. -/
def renderColumn (z : ℕ) (g : Progress) (x : ℤ) : Progress :=
  (loopValues (levelRange p o z).minY (levelRange p o z).maxY).foldl
    (fun g y => visit o stat g ⟨x, y, z⟩) g

/-- The loop over `x`. -/
def renderLevel (g : Progress) (z : ℕ) : Progress :=
  (loopValues (levelRange p o z).minX (levelRange p o z).maxX).foldl (renderColumn p o stat z) g

/-- The zoom levels. -/
def zooms : List ℕ := List.range' o.minZoom (o.maxZoom + 1 - o.minZoom)

/-- The loop over `z`. -/
def renderAll : Progress :=
  (zooms o).foldl (renderLevel p o stat) ⟨[], 0, 0⟩

/-- The rectangle of a zoom level that is asked for.  For latitudes and longitudes it begins at
the tile of the corner. -/
def requested (z : ℕ) : Range :=
  match o.box with
  | none => levelRange p o z
  | some b =>
      { levelRange p o z with
        minX := p.lon2tilex b.minLon z
        minY := p.lat2tiley b.maxLat z }

/-- The tiles of a zoom level to which the loops come. -/
def visitedLevel (z : ℕ) : List Tile :=
  (loopValues (levelRange p o z).minX (levelRange p o z).maxX).flatMap fun x =>
    (loopValues (levelRange p o z).minY (levelRange p o z).maxY).map fun y => ⟨x, y, z⟩

/-- The tiles to which the loops come. -/
def visited : List Tile := (zooms o).flatMap (visitedLevel p o)

end Program

variable {p : Projection} {o : Options} {stat : Tile → StatInfo}

/-! ### What the loops do -/

/-- The body of the loops over some tiles. -/
theorem foldl_visit (ts : List Tile) (g : Progress) :
  ts.foldl (visit o stat) g =
    ⟨g.enqueued ++ ts.filter (renders o stat), g.numRender + ts.countP (renders o stat),
      g.numAll + ts.length⟩
  := by
  induction ts generalizing g with
  | nil => simp
  | cons t ts ih =>
      rw [List.foldl_cons, ih, visit]
      split_ifs with ht
      · simp [ht, Nat.add_assoc, Nat.add_comm 1]
      · simp [ht, Nat.add_assoc, Nat.add_comm 1]

/-- The program asks for those of the tiles to which it comes that are to be rendered. -/
theorem renderAll_eq :
  renderAll p o stat = ⟨(visited p o).filter (renders o stat),
    (visited p o).countP (renders o stat), (visited p o).length⟩
  := by
  have hfold : renderAll p o stat = (visited p o).foldl (visit o stat) ⟨[], 0, 0⟩ := by
    rw [visited, List.foldl_flatMap]
    simp only [visitedLevel, List.foldl_flatMap, List.foldl_map]
    rfl
  rw [hfold, foldl_visit]
  simp

theorem mem_zooms {z : ℕ} :
  z ∈ zooms o ↔ o.minZoom ≤ z ∧ z ≤ o.maxZoom
  := by
  rw [zooms, List.mem_range'_1]
  omega

theorem mem_visited {t : Tile} :
  t ∈ visited p o ↔ (o.minZoom ≤ t.z ∧ t.z ≤ o.maxZoom) ∧
    t.x ∈ loopValues (levelRange p o t.z).minX (levelRange p o t.z).maxX ∧
    t.y ∈ loopValues (levelRange p o t.z).minY (levelRange p o t.z).maxY
  := by
  simp only [visited, visitedLevel, List.mem_flatMap, List.mem_map, mem_zooms]
  constructor
  · rintro ⟨z, hz, x, hx, y, hy, rfl⟩
    exact ⟨hz, hx, hy⟩
  · rintro ⟨hz, hx, hy⟩
    exact ⟨t.z, hz, t.x, hx, t.y, hy, rfl⟩

/-- The tiles to which the loops come are in different metatiles. -/
theorem pairwise_visited :
  (visited p o).Pairwise fun t t' => t.block ≠ t'.block
  := by
  rw [visited, List.pairwise_flatMap]
  constructor
  · intro z _
    rw [visitedLevel, List.pairwise_flatMap]
    constructor
    · intro x _
      rw [List.pairwise_map]
      apply pairwise_stride.imp
      intro y y' hne heq
      apply hne (congrArg (fun b => b.2.1) heq)
    · apply pairwise_stride.imp
      intro x x' hne t ht t' ht' heq
      obtain ⟨y, -, rfl⟩ := List.mem_map.mp ht
      obtain ⟨y', -, rfl⟩ := List.mem_map.mp ht'
      apply hne (congrArg (fun b => b.1) heq)
  · have hzooms : (zooms o).Pairwise (· ≠ ·) := List.nodup_range'
    apply hzooms.imp
    intro z z' hne t ht t' ht' heq
    simp only [visitedLevel, List.mem_flatMap, List.mem_map] at ht ht'
    obtain ⟨x, -, y, -, rfl⟩ := ht
    obtain ⟨x', -, y', -, rfl⟩ := ht'
    apply hne (congrArg (fun b => b.2.2) heq)

/-! ### The rectangle of a zoom level -/

/-- What is known of tile coordinates that are not refused. -/
theorem tiles_of_refused (h : o.refused = none) :
  (o.tilesPassed = true → o.minZoom = o.maxZoom) ∧
    (o.minX.isSome = true → o.maxX.isSome = true → o.minX.getD 0 ≤ o.maxX.getD 0) ∧
    (o.minY.isSome = true → o.maxY.isSome = true → o.minY.getD 0 ≤ o.maxY.getD 0) ∧
    (o.minZoom = o.maxZoom → ((o.minX.getD 0 ≤ o.lz ∧ o.minY.getD 0 ≤ o.lz) ∧
      o.maxX.getD o.lz ≤ o.lz) ∧ o.maxY.getD o.lz ≤ o.lz)
  := by
  have hchecks : ∀ c ∈ o.tileChecks, c.1 = false := by
    intro c hc
    rw [Options.refused, Option.map_eq_none_iff, List.find?_eq_none] at h
    simpa using h c (List.mem_cons_of_mem _ (List.mem_append_right _ hc))
  simpa only [Options.tileChecks, List.forall_mem_cons, List.not_mem_nil, false_implies,
    implies_true, and_true, Bool.and_eq_false_imp, Bool.and_eq_true, and_imp,
    Bool.or_eq_false_iff, decide_eq_true_eq, decide_eq_false_iff_not, not_lt, gt_iff_lt, ne_eq,
    not_not] using hchecks

/-- A first coordinate is not larger than the last one. -/
theorem getD_le_getD {first last : Option ℕ} {lz : ℕ}
    (hboth : first.isSome = true → last.isSome = true → first.getD 0 ≤ last.getD 0)
    (hfirst : first.isSome = true → first.getD 0 ≤ lz) :
  first.getD 0 ≤ last.getD lz
  := by
  cases first with
  | none => simp
  | some n =>
      cases last with
      | none => simpa using hfirst
      | some m => simpa using hboth

/-- The rectangle of the loops is not empty when it is given by tile coordinates. -/
theorem levelRange_nonempty (h : o.refused = none) (hbox : o.box = none) {z : ℕ}
    (hmin : o.minZoom ≤ z) (hmax : z ≤ o.maxZoom) :
  (levelRange p o z).minX ≤ (levelRange p o z).maxX ∧
    (levelRange p o z).minY ≤ (levelRange p o z).maxY
  := by
  obtain ⟨hzooms, hxs, hys, hlz⟩ := tiles_of_refused h
  have hrange : o.tilesPassed = true →
      o.minX.getD 0 ≤ 2 ^ z - 1 ∧ o.minY.getD 0 ≤ 2 ^ z - 1 := by
    intro hpassed
    have heq := hzooms hpassed
    have hz : z = o.minZoom := by
      rw [← heq] at hmax
      apply Nat.le_antisymm hmax hmin
    rw [hz]
    apply (hlz heq).1.1
  rw [levelRange, hbox]
  dsimp only
  rw [Nat.cast_le, Nat.cast_le]
  constructor
  · apply getD_le_getD hxs
    intro hfirst
    apply (hrange _).1
    simp [Options.tilesPassed, hfirst]
  · apply getD_le_getD hys
    intro hfirst
    apply (hrange _).2
    simp [Options.tilesPassed, hfirst]

/-- The coordinates of a zoom level are below those of the last one. -/
theorem two_pow_sub_le {z : ℕ} (hz : z ≤ maxZoom) :
  2 ^ z - 1 ≤ 2 ^ maxZoom - 1
  := Nat.sub_le_sub_right (Nat.pow_le_pow_right two_pos hz) 1

/-- A last coordinate is one of a zoom level. -/
theorem getD_le_of_refused {last : Option ℕ} {z : ℕ} (hz : z ≤ maxZoom)
    (hlast : last.isSome = true → last.getD o.lz ≤ o.lz) :
  last.getD (2 ^ z - 1) ≤ 2 ^ maxZoom - 1
  := by
  cases last with
  | none => apply two_pow_sub_le hz
  | some n =>
      apply (hlast rfl).trans
      apply two_pow_sub_le (Nat.le_of_lt_succ o.minZoom.isLt)

/-- The last coordinates of the loops are those of a tile. -/
theorem levelRange_le (h : o.refused = none) {z : ℕ} (hmax : z ≤ o.maxZoom) :
  (levelRange p o z).maxX ≤ (2 ^ maxZoom - 1 : ℕ) ∧ (levelRange p o z).maxY ≤ (2 ^ maxZoom - 1 : ℕ)
  := by
  obtain ⟨hzooms, -, -, hlz⟩ := tiles_of_refused h
  have hz : z ≤ maxZoom := hmax.trans (Nat.le_of_lt_succ o.maxZoom.isLt)
  cases hbox : o.box with
  | none =>
      rw [levelRange, hbox]
      dsimp only
      rw [Nat.cast_le, Nat.cast_le]
      constructor
      · apply getD_le_of_refused hz
        intro hlast
        apply (hlz (hzooms (by simp [Options.tilesPassed, hlast]))).1.2
      · apply getD_le_of_refused hz
        intro hlast
        apply (hlz (hzooms (by simp [Options.tilesPassed, hlast]))).2
  | some b =>
      have hle : (2 ^ z - 1 : ℤ) ≤ (2 ^ maxZoom - 1 : ℕ) := by
        have hle := Nat.cast_le (α := ℤ).mpr (two_pow_sub_le hz)
        rwa [Nat.cast_sub Nat.one_le_two_pow, Nat.cast_pow, Nat.cast_ofNat, Nat.cast_one] at hle
      simp only [levelRange, hbox]
      exact ⟨(min_le_right _ _).trans hle, (min_le_right _ _).trans hle⟩

/-- The variables of the loops do not overflow, even with the step after the last tile. -/
theorem visited_fits (h : o.refused = none) {t : Tile} (ht : t ∈ visited p o) :
  t.x + metatile < 2 ^ 31 ∧ t.y + metatile < 2 ^ 31
  := by
  obtain ⟨⟨-, hmax⟩, hx, hy⟩ := mem_visited.mp ht
  obtain ⟨hmaxX, hmaxY⟩ := levelRange_le (p := p) h hmax
  obtain ⟨-, -, hx⟩ := mem_stride.mp hx
  obtain ⟨-, -, hy⟩ := mem_stride.mp hy
  have hx' := hx.trans hmaxX
  have hy' := hy.trans hmaxY
  rw [metatile]
  norm_num [maxZoom] at hx' hy' ⊢
  omega

/-! ### The metatiles of the range -/

/-- The loops come to the metatile of a tile when each of them comes to the block of its
coordinate. -/
theorem exists_visited {x y : ℤ} {z : ℕ} (hmin : o.minZoom ≤ z) (hmax : z ≤ o.maxZoom)
    (hx : ∃ x' ∈ loopValues (levelRange p o z).minX (levelRange p o z).maxX,
      x' / metatile = x / metatile)
    (hy : ∃ y' ∈ loopValues (levelRange p o z).minY (levelRange p o z).maxY,
      y' / metatile = y / metatile) :
  ∃ t ∈ visited p o, t.block = (⟨x, y, z⟩ : Tile).block
  := by
  obtain ⟨x', hx', hxblock⟩ := hx
  obtain ⟨y', hy', hyblock⟩ := hy
  refine ⟨⟨x', y', z⟩, mem_visited.mpr ⟨⟨hmin, hmax⟩, hx', hy'⟩, ?_⟩
  rw [Tile.block, Tile.block, hxblock, hyblock]

/-- The loops come to every metatile of their rectangle exactly when the first tile is not
further into its metatile than the last one, in both directions. -/
theorem visited_covers_iff {z : ℕ} (hmin : o.minZoom ≤ z) (hmax : z ≤ o.maxZoom)
    (hx : (levelRange p o z).minX ≤ (levelRange p o z).maxX)
    (hy : (levelRange p o z).minY ≤ (levelRange p o z).maxY) :
  (∀ x y, (levelRange p o z).Contains x y →
      ∃ t ∈ visited p o, t.block = (⟨x, y, z⟩ : Tile).block) ↔
    (levelRange p o z).minX % metatile ≤ (levelRange p o z).maxX % metatile ∧
      (levelRange p o z).minY % metatile ≤ (levelRange p o z).maxY % metatile
  := by
  rw [← covers_iff metatile_pos hx, ← covers_iff metatile_pos hy]
  constructor
  · intro h
    have hblock : ∀ x y, (levelRange p o z).Contains x y →
        (∃ x' ∈ loopValues (levelRange p o z).minX (levelRange p o z).maxX,
          x' / metatile = x / metatile) ∧
        ∃ y' ∈ loopValues (levelRange p o z).minY (levelRange p o z).maxY,
          y' / metatile = y / metatile := by
      intro x y hcontains
      obtain ⟨⟨x', y', z'⟩, ht, hblock⟩ := h x y hcontains
      obtain ⟨hxblock, hyblock, rfl⟩ : x' / metatile = x / metatile ∧
          y' / metatile = y / metatile ∧ z' = z := by
        simpa [Tile.block] using hblock
      obtain ⟨-, hx', hy'⟩ := mem_visited.mp ht
      exact ⟨⟨x', hx', hxblock⟩, y', hy', hyblock⟩
    constructor
    · intro x hfirst hlast
      apply (hblock x (levelRange p o z).minY ⟨⟨hfirst, hlast⟩, le_rfl, hy⟩).1
    · intro y hfirst hlast
      apply (hblock (levelRange p o z).minX y ⟨⟨le_rfl, hx⟩, hfirst, hlast⟩).2
  · rintro ⟨hxs, hys⟩ x y ⟨⟨hxfirst, hxlast⟩, hyfirst, hylast⟩
    apply exists_visited hmin hmax (hxs x hxfirst hxlast) (hys y hyfirst hylast)

/-- The corner of a metatile. -/
theorem corner_spec {n : ℤ} (h : 0 ≤ n) :
  (n - n.tmod metatile) % metatile = 0 ∧ n - n.tmod metatile ≤ n
  := by
  rw [Int.tmod_eq_emod_of_nonneg h, metatile]
  omega

/-- A loop that begins at the corner of a metatile comes to every block. -/
theorem exists_mem_loopValues_corner {first last n : ℤ} (h : 0 ≤ first) (hfirst : first ≤ n)
    (hlast : n ≤ last) :
  ∃ n' ∈ loopValues (first - first.tmod metatile) last, n' / metatile = n / metatile
  := by
  obtain ⟨hmod, hle⟩ := corner_spec h
  apply exists_mem_stride _ (hle.trans hfirst) hlast
  rw [hmod]
  apply Int.emod_nonneg
  decide

/-- The loops come to every metatile of a rectangle that is given by latitudes and longitudes. -/
theorem visited_covers_box {b : Box} (hbox : o.box = some b) {z : ℕ} (hmin : o.minZoom ≤ z)
    (hmax : z ≤ o.maxZoom) {x y : ℤ} (h : (requested p o z).Contains x y) :
  ∃ t ∈ visited p o, t.block = (⟨x, y, z⟩ : Tile).block
  := by
  simp only [requested, hbox] at h
  obtain ⟨⟨hxfirst, hxlast⟩, hyfirst, hylast⟩ := h
  have hminX : (levelRange p o z).minX = p.lon2tilex b.minLon z -
      (p.lon2tilex b.minLon z).tmod metatile := by
    simp only [levelRange, hbox]
  have hminY : (levelRange p o z).minY = p.lat2tiley b.maxLat z -
      (p.lat2tiley b.maxLat z).tmod metatile := by
    simp only [levelRange, hbox]
  apply exists_visited hmin hmax
  · rw [hminX]
    apply exists_mem_loopValues_corner _ hxfirst hxlast
    apply p.lon2tilex_nonneg _ _ b.minLon_ge
  · rw [hminY]
    apply exists_mem_loopValues_corner _ hyfirst hylast
    apply p.lat2tiley_nonneg _ _ b.maxLat_le

/-- When all tiles are asked for, the tiles that are asked for cover the rectangle of a zoom level
exactly when it is given by latitudes and longitudes, or the first tile is not further into its
metatile than the last one, in both directions.  No metatile is asked for twice. -/
theorem renderAll_covers_iff (h : o.refused = none)
    (hall : ∀ t, renders o stat t = true) {z : ℕ} (hmin : o.minZoom ≤ z) (hmax : z ≤ o.maxZoom) :
  ((∀ x y, (requested p o z).Contains x y →
      ∃ t ∈ (renderAll p o stat).enqueued, t.block = (⟨x, y, z⟩ : Tile).block) ↔
    (o.box = none →
      (levelRange p o z).minX % metatile ≤ (levelRange p o z).maxX % metatile ∧
        (levelRange p o z).minY % metatile ≤ (levelRange p o z).maxY % metatile)) ∧
    ((renderAll p o stat).enqueued.map Tile.block).Nodup
  := by
  have henqueued : (renderAll p o stat).enqueued = visited p o := by
    rw [renderAll_eq, List.filter_eq_self]
    exact fun t _ => hall t
  rw [henqueued]
  constructor
  · cases hbox : o.box with
    | none =>
        obtain ⟨hx, hy⟩ := levelRange_nonempty (p := p) h hbox hmin hmax
        have hrequested : requested p o z = levelRange p o z := by
          simp only [requested, hbox]
        rw [hrequested, visited_covers_iff hmin hmax hx hy]
        simp
    | some b =>
        constructor
        · intro _ hnone
          contradiction
        · intro _ x y hcontains
          apply visited_covers_box hbox hmin hmax hcontains
  · apply List.Pairwise.map _ _ pairwise_visited
    exact fun _ _ hne => hne

/-- Tile numbers that are proportional to the angles. -/
def sampleProjection : Projection where
  lon2tilex lon z := ⌊(lon + 180) / 360 * 2 ^ z⌋
  lat2tiley lat z := ⌊(90 - lat) / 180 * 2 ^ z⌋
  lon2tilex_nonneg lon z h := by
    have hlon : 0 ≤ lon + 180 := by linarith
    positivity
  lat2tiley_nonneg lat z h := by
    have hlat : 0 ≤ 90 - lat := by
      norm_num at h
      linarith
    positivity

/-- The tiles of a row at zoom level 4. -/
def sampleOptions (minX maxX : ℕ) : Options where
  force := false
  minZoom := 4
  maxZoom := 4
  minX := some minX
  maxX := some maxX
  minY := some 0
  maxY := some 0
  box := none

/-- All tiles are missing. -/
def missing (_ : Tile) : StatInfo := ⟨-1, 0, 0, 0, 0⟩

/-- A range that begins and ends with a metatile is covered. -/
theorem renderAll_covers_iff_aligned :
  (sampleOptions 0 15).refused = none ∧
    ∀ x y, (requested sampleProjection (sampleOptions 0 15) 4).Contains x y →
      ∃ t ∈ (renderAll sampleProjection (sampleOptions 0 15) missing).enqueued,
        t.block = (⟨x, y, 4⟩ : Tile).block
  := by
  have haccepted : (sampleOptions 0 15).refused = none := by decide
  have hall : ∀ t, renders (sampleOptions 0 15) missing t = true := fun _ => rfl
  use haccepted
  apply (renderAll_covers_iff haccepted hall (by decide) (by decide)).1.mpr
  intro _
  decide

/-- The tiles 7 and 8 of a row are in two metatiles.  The loop comes to the first of them, and its
next value is behind the last tile. -/
theorem renderAll_uncovered :
  (sampleOptions 7 8).refused = none ∧
    (requested sampleProjection (sampleOptions 7 8) 4).Contains 8 0 ∧
    (renderAll sampleProjection (sampleOptions 7 8) missing).enqueued = [⟨7, 0, 4⟩] ∧
    (⟨7, 0, 4⟩ : Tile).block ≠ (⟨8, 0, 4⟩ : Tile).block
  := by
  refine ⟨by decide, ?_, ?_, by decide⟩
  · simp [requested, levelRange, sampleOptions, Range.Contains]
  · have hx : loopValues 7 8 = [7] := by
      simp [loopValues, stride, metatile]
    have hy : loopValues 0 0 = [0] := by
      simp [loopValues, stride, metatile]
    have hvisited : visited sampleProjection (sampleOptions 7 8) = [⟨7, 0, 4⟩] := by
      simp [visited, visitedLevel, zooms, levelRange, sampleOptions, hx, hy, maxZoom]
    rw [renderAll_eq, hvisited]
    rfl

end RenderList
