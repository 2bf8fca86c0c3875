import ModTile.RenderedTiles
import ModTile.Rounding

/-!
# The bounds of a metatile

`get_projection` of `gen_tile.cpp` gives the bounds of a map in the coordinates of its projection,
and `tile2prjbounds` computes from them the part of the plane that the picture of a metatile shows.
All numbers have the type `double`, and every operation is rounded.

Nevertheless the pictures of the metatiles of a zoom level fit together: every point of the map is
in the picture of exactly one metatile that is rendered.  The edges of neighbours are computed by
the same operations from the same numbers, and those at the border of the map are its bounds.
-/

namespace Drawing

open RenderedTiles (checkXyz_iff renderSize_bounds le_or_dvd aspect_cases)

/-- `box2d`: a part of the plane. -/
structure Box where
  x0 : ℚ
  y0 : ℚ
  x1 : ℚ
  y1 : ℚ
  deriving DecidableEq

/-- The point is in the part, of whose border the right and the lower side belong to it. -/
def Box.Contains (b : Box) (p : ℚ × ℚ) : Prop :=
  p.1 ∈ Set.Ioc b.x0 b.x1 ∧ p.2 ∈ Set.Ico b.y0 b.y1

variable (r : FloatRounding)

/-- The bounds that `get_projection` sets for a reference system. -/
def getProjectionBounds (srs : List UInt8) : Box :=
  let bound := r.round 20037508.3428
  let half := r.round 10018754.1714
  if Bytes.ofString "+proj=merc +a=6378137 +b=6378137" <:+: srs then
    { x0 := -bound, x1 := bound, y0 := -bound, y1 := bound }
  else if srs = Bytes.ofString ("+proj=eqc +lat_ts=0 +lat_0=0 +lon_0=0 +x_0=0 +y_0=0 " ++
      "+ellps=WGS84 +datum=WGS84 +units=m +no_defs") then
    { x0 := -bound, x1 := bound, y0 := -half, y1 := half }
  else if srs = Bytes.ofString ("+proj=tmerc +lat_0=49 +lon_0=-2 +k=0.9996012717 +x_0=400000 " ++
      "+y_0=-100000 +ellps=airy +datum=OSGB36 +units=m +no_defs") then
    { x0 := 0, y0 := 0, x1 := 700000, y1 := 1400000 }
  else
    { x0 := -bound, x1 := bound, y0 := -bound, y1 := bound }

/-- `tile2prjbounds`: the part of the plane for the metatile that begins at a tile. -/
def tile2prjbounds (prj : ProjectionConfig) (bounds : Box) (x y z : Int32) : Box :=
  let renderSizeTx := renderSize prj.aspectX z
  let renderSizeTy := renderSize prj.aspectY z
  let columns : ℚ := prj.aspectX * 2 ^ z.toInt.toNat
  let rows : ℚ := prj.aspectY * 2 ^ z.toInt.toNat
  let width := r.round (bounds.x1 - bounds.x0)
  let height := r.round (bounds.y1 - bounds.y0)
  { x0 := r.round (bounds.x0 + r.round (width * r.round (x.toInt / columns)))
    y0 := r.round (bounds.y1 -
      r.round (height * r.round (r.round (y.toInt + renderSizeTy) / rows)))
    x1 := r.round (bounds.x0 +
      r.round (width * r.round (r.round (x.toInt + renderSizeTx) / columns)))
    y1 := r.round (bounds.y1 - r.round (height * r.round (y.toInt / rows))) }

/-! ### The edges -/

/-- The place of the `k`-th of `n` edges from `lo` to `hi`. -/
def edge (lo hi n : ℚ) (k : ℕ) : ℚ :=
  r.round (lo + r.round (r.round (hi - lo) * r.round (k / n)))

/-- The place of the `k`-th of `n` edges from `hi` down to `lo`. -/
def edgeDown (lo hi n : ℚ) (k : ℕ) : ℚ :=
  r.round (hi - r.round (r.round (hi - lo) * r.round (k / n)))

/-- The bounds and the length of an interval are numbers of the format. -/
structure Representable (lo hi : ℚ) : Prop where
  le : lo ≤ hi
  lo_eq : r.round lo = lo
  hi_eq : r.round hi = hi
  length_eq : r.round (hi - lo) = hi - lo

variable {r} {lo hi n a : ℚ} {m : ℤ}

theorem representable_neg (h : 0 ≤ a) :
  Representable r (-r.round a) (r.round a)
  := by
  have ha := r.round_nonneg h
  have htwice : r.round a - -r.round a = 2 * r.round a := by ring
  constructor
  case le => linarith
  case lo_eq => rw [r.neg, r.idem]
  case hi_eq => exact r.idem a
  case length_eq => rw [htwice, r.double]

theorem representable_zero (h0 : 0 ≤ m) (h : m ≤ 2 ^ 53) :
  Representable r 0 m
  := by
  have hm : r.round m = m := r.round_intCast (by rwa [abs_of_nonneg h0])
  constructor
  case le => exact_mod_cast h0
  case lo_eq => exact r.round_zero
  case hi_eq => exact hm
  case length_eq => rw [sub_zero, hm]

theorem monotone_edge (h : Representable r lo hi) (hn : 0 ≤ n) :
  Monotone (edge r lo hi n)
  := by
  intro k k' hk
  have hlength : 0 ≤ r.round (hi - lo) := r.round_nonneg (sub_nonneg.mpr h.le)
  have hcast : (k : ℚ) ≤ k' := by exact_mod_cast hk
  apply r.mono
  apply add_le_add_right
  apply r.mono
  apply mul_le_mul_of_nonneg_left _ hlength
  apply r.mono
  exact div_le_div_of_nonneg_right hcast hn

theorem antitone_edgeDown (h : Representable r lo hi) (hn : 0 ≤ n) :
  Antitone (edgeDown r lo hi n)
  := by
  intro k k' hk
  have hlength : 0 ≤ r.round (hi - lo) := r.round_nonneg (sub_nonneg.mpr h.le)
  have hcast : (k : ℚ) ≤ k' := by exact_mod_cast hk
  apply r.mono
  apply sub_le_sub_left
  apply r.mono
  apply mul_le_mul_of_nonneg_left _ hlength
  apply r.mono
  exact div_le_div_of_nonneg_right hcast hn

theorem edge_zero (h : Representable r lo hi) :
  edge r lo hi n 0 = lo
  := by
  rw [edge, Nat.cast_zero, zero_div, r.round_zero, mul_zero, r.round_zero, add_zero, h.lo_eq]

theorem edgeDown_zero (h : Representable r lo hi) :
  edgeDown r lo hi n 0 = hi
  := by
  rw [edgeDown, Nat.cast_zero, zero_div, r.round_zero, mul_zero, r.round_zero, sub_zero, h.hi_eq]

theorem round_whole (h : Representable r lo hi) {k : ℕ} (hk : 0 < k) :
  r.round (r.round (hi - lo) * r.round ((k : ℚ) / (k : ℚ))) = hi - lo
  := by
  have hone : r.round ((k : ℚ) / (k : ℚ)) = 1 := by
    rw [div_self (Nat.cast_ne_zero.mpr hk.ne')]
    exact_mod_cast r.round_intCast (show |(1 : ℤ)| ≤ 2 ^ 53 by decide)
  rw [hone, mul_one, r.idem, h.length_eq]

theorem edge_self (h : Representable r lo hi) {k : ℕ} (hk : 0 < k) :
  edge r lo hi k k = hi
  := by
  rw [edge, round_whole h hk, add_sub_cancel, h.hi_eq]

theorem edgeDown_self (h : Representable r lo hi) {k : ℕ} (hk : 0 < k) :
  edgeDown r lo hi k k = lo
  := by
  rw [edgeDown, round_whole h hk, sub_sub_cancel, h.lo_eq]

/-- The bounds of the projections are numbers of the format. -/
theorem representable_getProjectionBounds (srs : List UInt8) :
  Representable r (getProjectionBounds r srs).x0 (getProjectionBounds r srs).x1 ∧
    Representable r (getProjectionBounds r srs).y0 (getProjectionBounds r srs).y1
  := by
  have hbound : Representable r (-r.round 20037508.3428) (r.round 20037508.3428) :=
    representable_neg (by norm_num)
  have hhalf : Representable r (-r.round 10018754.1714) (r.round 10018754.1714) :=
    representable_neg (by norm_num)
  rw [getProjectionBounds]
  split_ifs
  · exact ⟨hbound, hbound⟩
  · exact ⟨hbound, hhalf⟩
  · constructor
    · exact_mod_cast representable_zero (r := r) (m := 700000) (by decide) (by decide)
    · exact_mod_cast representable_zero (r := r) (m := 1400000) (by decide) (by decide)
  · exact ⟨hbound, hbound⟩

/-! ### Columns and rows of metatiles -/

/-- The coordinate is that of the first tile of a metatile with tiles of the map, in one
direction. -/
def IsOrigin (A : ℤ) (z x : Int32) : Prop :=
  x.toInt % 8 = 0 ∧ 0 ≤ x.toInt ∧ x.toInt < 2 ^ z.toInt.toNat * A

variable {A : ℤ} {z x : Int32}

/-- The tiles of one direction are cut into metatiles of the same size. -/
theorem exists_mul_renderSize (hA : A = 1 ∨ A = 2) :
  ∃ k : ℕ, ((k * renderSize A z : ℕ) : ℤ) = 2 ^ z.toInt.toNat * A ∧
    (renderSize A z = 8 ∨ k = 1)
  := by
  have hpos : (0 : ℤ) < 2 ^ z.toInt.toNat * A := by
    rcases hA with rfl | rfl
    all_goals positivity
  have hsize : (renderSize A z : ℤ) = min 8 (2 ^ z.toInt.toNat * A) := by
    rw [renderSize, mul_comm A, metatile]
    omega
  rcases le_or_dvd hA z.toInt.toNat with hle | ⟨k, hk⟩
  · refine ⟨1, ?_, .inr rfl⟩
    rw [one_mul, hsize, min_eq_right hle]
  · have hsize : renderSize A z = 8 := by omega
    refine ⟨k.toNat, ?_, .inl hsize⟩
    rw [hsize, hk]
    omega

/-- The origins are the multiples of the size of a metatile. -/
theorem isOrigin_iff (hA : A = 1 ∨ A = 2) {k : ℕ}
    (hk : ((k * renderSize A z : ℕ) : ℤ) = 2 ^ z.toInt.toNat * A)
    (hsize : renderSize A z = 8 ∨ k = 1) :
  IsOrigin A z x ↔ ∃ i < k, x.toInt = (i * renderSize A z : ℕ)
  := by
  have hle := (renderSize_bounds (z := z) hA).2
  rw [metatile] at hle
  rw [IsOrigin, ← hk]
  constructor
  · rintro ⟨hmod, h0, hlt⟩
    rcases hsize with hsize | rfl
    · rw [hsize] at hlt ⊢
      refine ⟨(x.toInt / 8).toNat, ?_, ?_⟩
      · omega
      · omega
    · refine ⟨0, by decide, ?_⟩
      omega
  · rintro ⟨i, hi, hx⟩
    have hlt : i * renderSize A z < k * renderSize A z :=
      Nat.mul_lt_mul_of_pos_right hi (renderSize_bounds hA).1
    rcases hsize with hsize | rfl
    · rw [hsize] at hx hlt ⊢
      omega
    · obtain rfl : i = 0 := by omega
      rw [hx]
      omega

/-- A point that is cut off by increasing edges is between those of one metatile. -/
theorem exists_unique_origin {α : Type*} [LinearOrder α] {f : ℕ → α} (hf : Monotone f)
    (hA : A = 1 ∨ A = 2) (hz : z.toInt ≤ maxZoom) {n : ℕ} (hn : (n : ℤ) = 2 ^ z.toInt.toNat * A)
    {p : α} (hp : p ∈ Set.Ioc (f 0) (f n)) :
  ∃! x, IsOrigin A z x ∧ p ∈ Set.Ioc (f x.toInt.toNat) (f (x.toInt.toNat + renderSize A z))
  := by
  obtain ⟨k, hk, hsize⟩ := exists_mul_renderSize (z := z) hA
  have horigin : ∀ x, IsOrigin A z x ↔ ∃ i < k, x.toInt = (i * renderSize A z : ℕ) :=
    fun x => isOrigin_iff hA hk hsize
  have hn : k * renderSize A z = n := by
    have hcast := hk.trans hn.symm
    exact_mod_cast hcast
  have hsmall : k * renderSize A z < 2 ^ 31 := by
    have hpow : (2 : ℤ) ^ z.toInt.toNat ≤ 2 ^ 20 := by
      apply pow_le_pow_right₀ (by decide)
      rw [maxZoom] at hz
      omega
    have hlt : ((k * renderSize A z : ℕ) : ℤ) < 2 ^ 31 := by
      rw [hk]
      rcases hA with rfl | rfl
      all_goals omega
    exact_mod_cast hlt
  have hmono : Monotone fun i => f (i * renderSize A z) :=
    fun i j hij => hf (Nat.mul_le_mul_right _ hij)
  have hends : p ∈ Set.Ioc (f (0 * renderSize A z)) (f (k * renderSize A z)) := by
    rw [Nat.zero_mul, hn]
    exact hp
  obtain ⟨i, ⟨hi, hpi⟩, hunique⟩ := exists_unique_piece hmono hends
  have hlt : i * renderSize A z < k * renderSize A z :=
    Nat.mul_lt_mul_of_pos_right hi (renderSize_bounds hA).1
  have hx : (Int32.ofNat (i * renderSize A z)).toInt = (i * renderSize A z : ℕ) :=
    Int32.toInt_ofNat_of_lt (by omega)
  refine ⟨Int32.ofNat (i * renderSize A z), ⟨(horigin _).mpr ⟨i, hi, hx⟩, ?_⟩, ?_⟩
  · rw [hx, Int.toNat_natCast, ← Nat.succ_mul]
    exact hpi
  · rintro x ⟨hox, hpx⟩
    obtain ⟨j, hj, hxj⟩ := (horigin x).mp hox
    rw [hxj, Int.toNat_natCast, ← Nat.succ_mul] at hpx
    obtain rfl := hunique j ⟨hj, hpx⟩
    apply Int32.toInt_inj.mp
    rw [hxj, hx]

/-- The edges of a metatile are those of its first tile and of the tile after its last one. -/
theorem tile2prjbounds_eq {prj : ProjectionConfig} {bounds : Box} {y : Int32} {columns rows : ℕ}
    (hX : prj.aspectX = 1 ∨ prj.aspectX = 2) (hY : prj.aspectY = 1 ∨ prj.aspectY = 2)
    (hcolumns : (columns : ℤ) = 2 ^ z.toInt.toNat * prj.aspectX)
    (hrows : (rows : ℤ) = 2 ^ z.toInt.toNat * prj.aspectY) (hx : 0 ≤ x.toInt)
    (hy : 0 ≤ y.toInt) :
  tile2prjbounds r prj bounds x y z =
    { x0 := edge r bounds.x0 bounds.x1 columns x.toInt.toNat
      y0 := edgeDown r bounds.y0 bounds.y1 rows (y.toInt.toNat + renderSize prj.aspectY z)
      x1 := edge r bounds.x0 bounds.x1 columns (x.toInt.toNat + renderSize prj.aspectX z)
      y1 := edgeDown r bounds.y0 bounds.y1 rows y.toInt.toNat }
  := by
  have hcolumns' : (columns : ℚ) = prj.aspectX * 2 ^ z.toInt.toNat := by
    rw [mul_comm]
    exact_mod_cast hcolumns
  have hrows' : (rows : ℚ) = prj.aspectY * 2 ^ z.toInt.toNat := by
    rw [mul_comm]
    exact_mod_cast hrows
  have hcast : ∀ {w : Int32}, 0 ≤ w.toInt → ((w.toInt.toNat : ℕ) : ℚ) = w.toInt := by
    intro w hw
    exact_mod_cast Int.toNat_of_nonneg hw
  have hend : ∀ {w : Int32} {c : ℕ}, 0 ≤ w.toInt → c ≤ metatile →
      r.round (w.toInt + c) = w.toInt + c := by
    intro w c hw hc
    have hlt := w.toInt_lt
    rw [metatile] at hc
    have hround : |w.toInt + (c : ℤ)| ≤ 2 ^ 53 := by
      rw [abs_of_nonneg (by omega)]
      omega
    exact_mod_cast r.round_intCast hround
  rw [tile2prjbounds, edge, edge, edgeDown, edgeDown, Nat.cast_add, Nat.cast_add, hcast hx,
    hcast hy, hcolumns', hrows', hend hx (renderSize_bounds hX).2, hend hy (renderSize_bounds hY).2]

/-! ### The pictures of a zoom level -/

variable {map : XmlMapConfig} {srs : List UInt8} {p : ℚ × ℚ}

/-- Every point of a map is in the picture of exactly one of the metatiles of a zoom level that are
rendered, in spite of the rounding. -/
theorem exists_unique_metatile (hprj : map.prj = getProjection srs) (hmin : map.minzoom ≤ z.toInt)
    (hmax : z.toInt ≤ map.maxzoom) (hz : z.toInt ≤ maxZoom)
    (hp : (getProjectionBounds r srs).Contains p) :
  ∃! m : Int32 × Int32, (m.1.toInt % 8 = 0 ∧ m.2.toInt % 8 = 0 ∧ checkXyz m.1 m.2 z map) ∧
    (tile2prjbounds r map.prj (getProjectionBounds r srs) m.1 m.2 z).Contains p
  := by
  obtain ⟨hX, hY⟩ := aspect_cases srs
  rw [← hprj] at hX hY
  obtain ⟨hxs, hys⟩ := representable_getProjectionBounds (r := r) srs
  have hcount : ∀ {A : ℤ}, A = 1 ∨ A = 2 →
      ∃ n : ℕ, (n : ℤ) = 2 ^ z.toInt.toNat * A ∧ 0 < n := by
    intro A hA
    have hpos : (0 : ℤ) < 2 ^ z.toInt.toNat * A := by
      rcases hA with rfl | rfl
      all_goals positivity
    exact ⟨(2 ^ z.toInt.toNat * A).toNat, by omega, by omega⟩
  obtain ⟨columns, hcolumns, hcpos⟩ := hcount hX
  obtain ⟨rows, hrows, hrpos⟩ := hcount hY
  -- The columns are found from the left, and the rows from above.
  have hcolumn := exists_unique_origin (monotone_edge hxs (Nat.cast_nonneg columns)) hX hz hcolumns
    (p := p.1) (by rw [edge_zero hxs, edge_self hxs hcpos]; exact hp.1)
  have hrow := exists_unique_origin (antitone_edgeDown hys (Nat.cast_nonneg rows)).dual_right hY hz
    hrows (p := OrderDual.toDual p.2) (by
      dsimp only [Function.comp_apply]
      rw [edgeDown_zero hys, edgeDown_self hys hrpos]
      exact ⟨hp.2.2, hp.2.1⟩)
  obtain ⟨x, ⟨hx, hpx⟩, huniqueX⟩ := hcolumn
  obtain ⟨y, ⟨hy, hpy⟩, huniqueY⟩ := hrow
  refine ⟨(x, y), ⟨⟨hx.1, hy.1, checkXyz_iff.mpr ⟨⟨hmin, hmax⟩, hx.2, hy.2⟩⟩, ?_⟩, ?_⟩
  · rw [tile2prjbounds_eq hX hY hcolumns hrows hx.2.1 hy.2.1]
    exact ⟨hpx, hpy.2, hpy.1⟩
  · rintro ⟨x', y'⟩ ⟨⟨hmodX, hmodY, hcheck⟩, hcontains⟩
    obtain ⟨-, hboundsX, hboundsY⟩ := checkXyz_iff.mp hcheck
    rw [tile2prjbounds_eq hX hY hcolumns hrows hboundsX.1 hboundsY.1] at hcontains
    have hx' := huniqueX x' ⟨⟨hmodX, hboundsX⟩, hcontains.1⟩
    have hy' := huniqueY y' ⟨⟨hmodY, hboundsY⟩, hcontains.2.2, hcontains.2.1⟩
    rw [hx', hy']

/-- A point near the middle of the map is in the picture of one metatile. -/
theorem exists_unique_metatile_middle :
  ∃! m : Int32 × Int32,
    (m.1.toInt % 8 = 0 ∧ m.2.toInt % 8 = 0 ∧ checkXyz m.1 m.2 5 RenderThread.sampleMap) ∧
    (tile2prjbounds FloatRounding.exact RenderThread.sampleMap.prj
      (getProjectionBounds FloatRounding.exact []) m.1 m.2 5).Contains (1, 1)
  := by
  have hbounds : getProjectionBounds FloatRounding.exact [] =
      ⟨-20037508.3428, -20037508.3428, 20037508.3428, 20037508.3428⟩ := by
    rw [getProjectionBounds, if_neg (by decide +kernel), if_neg (by decide +kernel),
      if_neg (by decide +kernel)]
    rfl
  have hp : (getProjectionBounds FloatRounding.exact []).Contains (1, 1) := by
    rw [hbounds]
    norm_num [Box.Contains]
  have hprj : RenderThread.sampleMap.prj = getProjection [] := by
    rw [RenderThread.sampleMap]
  exact exists_unique_metatile hprj (by decide) (by decide) (by decide) hp

end Drawing
