import ModTile.Bytes.Decimal
import ModTile.MapNames
import ModTile.Renderd.MetatileFiles

/-!
# The tiles of a metatile

A metatile at a low zoom level, or of a map that is not square, need not have all its tiles.
How many there are is computed in three places: `check_xyz` decides which coordinates are
those of a tile, `render` cuts the picture into tiles, and `metaTile::expire_tiles` tells a
cache which tiles have changed, one datagram for each.

The three sets are rectangles that begin at the origin of the metatile.  Those of `check_xyz`
and of `render` are the same, but `expire_tiles` does not know of the aspect ratio of the map.
-/

/-- Two bytes with the most significant one first. -/
def putU16 (n : UInt16) : List UInt8 := [(n >>> 8).toUInt8, n.toUInt8]

/-- Four bytes with the most significant one first. -/
def putU32 (n : UInt32) : List UInt8 :=
  [(n >>> 24).toUInt8, (n >>> 16).toUInt8, (n >>> 8).toUInt8, n.toUInt8]

/-- The datagrams that are sent to have a cache drop a page. -/
def cacheExpireUrl (sock : ℤ) (url : List UInt8) : List (List UInt8) :=
  if sock < 0 then []
  else
    let urlLen := url.length
    [putU16 (UInt16.ofNat (12 + 22 + urlLen)) ++ [0, 0] ++
      putU16 (UInt16.ofNat (8 + 22 + urlLen)) ++ [4, 0] ++ putU32 255 ++ [0, 0] ++
      putU16 4 ++ Bytes.ofString "HEAD" ++ putU16 (UInt16.ofNat urlLen) ++ url ++
      putU16 8 ++ Bytes.ofString "HTTP/1.1" ++ putU16 0]

/-- The datagrams that are sent to have a cache drop a tile.  The address is cut to the 1023
bytes that there is room for. -/
def cacheExpire (sock : ℤ) (host uri : List UInt8) (x y z : Int32) : List (List UInt8) :=
  if sock < 0 then []
  else
    cacheExpireUrl sock ((Bytes.ofString "http://" ++ host ++ uri ++ Bytes.signed z.toInt ++
      Bytes.ofString "/" ++ Bytes.signed x.toInt ++ Bytes.ofString "/" ++
      Bytes.signed y.toInt ++ Bytes.ofString ".png").take 1023)

namespace MetaTile

/-- The data of a tile is set. -/
def set (t : MetaTile) (x y : ℕ) (data : List UInt8) : MetaTile :=
  { t with tile := fun ox oy => if ox.1 = x ∧ oy.1 = y then data else t.tile ox oy }

/-- The tiles `(ox, oy)` for which `expire_tiles` asks a cache to drop them, in this order. -/
def expireOrder (t : MetaTile) : List (ℕ × ℕ) :=
  let limit := min (2 ^ t.z.toInt.toNat) metatile
  (List.range limit).flatMap fun ox => (List.range limit).map fun oy => (ox, oy)

/-- The datagrams that `expire_tiles` sends, each with the coordinates of its tile. -/
def expireTiles (t : MetaTile) (sock : ℤ) (host uri : List UInt8) :
    List ((Int32 × Int32) × List UInt8) :=
  if sock < 0 then []
  else
    t.expireOrder.flatMap fun (ox, oy) =>
      (cacheExpire sock host uri (t.x + Int32.ofNat ox) (t.y + Int32.ofNat oy) t.z).map
        fun datagram => ((t.x + Int32.ofNat ox, t.y + Int32.ofNat oy), datagram)

end MetaTile

/-- The number of tiles of a metatile in one direction. -/
def renderSize (aspect : ℤ) (z : Int32) : ℕ :=
  (min (metatile : ℤ) (aspect * 2 ^ z.toInt.toNat)).toNat

/-- The tiles `(xx, yy)` into which `render` cuts the picture, in this order. -/
def renderOrder (map : XmlMapConfig) (z : Int32) : List (ℕ × ℕ) :=
  (List.range (renderSize map.prj.aspectY z)).flatMap fun yy =>
    (List.range (renderSize map.prj.aspectX z)).map fun xx => (xx, yy)

/-- The metatile after a picture has been cut into tiles, where `saveToString` encodes the part
for the tile `(xx, yy)`. -/
def renderTiles (map : XmlMapConfig) (z : Int32) (saveToString : ℕ → ℕ → List UInt8)
    (tiles : MetaTile) : MetaTile :=
  (renderOrder map z).foldl (fun t (xx, yy) => t.set xx yy (saveToString xx yy)) tiles

namespace RenderedTiles

open RenderdConfig MapNames

/-! ### Rectangles of tiles -/

/-- The tiles of a rectangle of `a` columns and `b` rows. -/
def rectangle (x y : Int32) (a b : ℕ) : Set (Int32 × Int32) :=
  {p | ∃ i < a, ∃ j < b, p = (x + Int32.ofNat i, y + Int32.ofNat j)}

/-- The tiles of the block of a metatile that are tiles of the map. -/
def valid (map : XmlMapConfig) (t : MetaTile) : Set (Int32 × Int32) :=
  {p | p ∈ rectangle t.x t.y metatile metatile ∧ checkXyz p.1 p.2 t.z map}

/-- The tiles whose data `render` sets. -/
def rendered (map : XmlMapConfig) (t : MetaTile) : Set (Int32 × Int32) :=
  {p | ∃ o ∈ renderOrder map t.z, p = (t.x + Int32.ofNat o.1, t.y + Int32.ofNat o.2)}

/-- The tiles for which a datagram is sent to the cache. -/
def purged (t : MetaTile) (sock : ℤ) (host uri : List UInt8) : Set (Int32 × Int32) :=
  {p | ∃ datagram, (p, datagram) ∈ t.expireTiles sock host uri}

variable {map : XmlMapConfig} {t : MetaTile} {x y z : Int32} {a b c d i j k : ℕ} {sock : ℤ}
  {host uri : List UInt8} {ini : List IniSection} {configFileName tileDir : List UInt8}
  {numThreads : ℤ} {maps : List XmlConfigItem} {o : ℕ → SetupOutcome}

theorem add_ofNat_inj (hi : i < metatile) (hj : j < metatile)
    (h : x + Int32.ofNat i = x + Int32.ofNat j) :
  i = j
  := by
  have heq := congrArg Int32.toInt ((Int32.add_right_inj x).mp h)
  rw [metatile] at hi hj
  rw [Int32.toInt_ofNat_of_lt (by omega), Int32.toInt_ofNat_of_lt (by omega)] at heq
  exact_mod_cast heq

theorem mem_rectangle_iff (hi : i < metatile) (hj : j < metatile) (ha : a ≤ metatile)
    (hb : b ≤ metatile) :
  (x + Int32.ofNat i, y + Int32.ofNat j) ∈ rectangle x y a b ↔ i < a ∧ j < b
  := by
  constructor
  · rintro ⟨i', hi', j', hj', h⟩
    obtain ⟨hx, hy⟩ := Prod.mk.inj h
    rw [add_ofNat_inj hi (by omega) hx, add_ofNat_inj hj (by omega) hy]
    exact ⟨hi', hj'⟩
  · rintro ⟨hia, hjb⟩
    exact ⟨i, hia, j, hjb, rfl⟩

/-- A rectangle in a metatile determines its numbers of columns and of rows. -/
theorem rectangle_inj (ha : 0 < a ∧ a ≤ metatile) (hb : 0 < b ∧ b ≤ metatile)
    (hc : 0 < c ∧ c ≤ metatile) (hd : 0 < d ∧ d ≤ metatile) :
  rectangle x y a b = rectangle x y c d ↔ a = c ∧ b = d
  := by
  constructor
  · intro h
    have hiff : ∀ i < metatile, ∀ j < metatile, (i < a ∧ j < b ↔ i < c ∧ j < d) := by
      intro i hi j hj
      rw [← mem_rectangle_iff (x := x) (y := y) hi hj ha.2 hb.2, h,
        mem_rectangle_iff hi hj hc.2 hd.2]
    have h1 := hiff (a - 1) (by omega) 0 (by omega)
    have h2 := hiff (c - 1) (by omega) 0 (by omega)
    have h3 := hiff 0 (by omega) (b - 1) (by omega)
    have h4 := hiff 0 (by omega) (d - 1) (by omega)
    omega
  · rintro ⟨rfl, rfl⟩
    rfl

/-! ### The sets are rectangles -/

/-- The data of the tiles in a list of places is set. -/
theorem foldl_set (l : List (ℕ × ℕ)) (saveToString : ℕ → ℕ → List UInt8) (ox oy : Fin metatile) :
  (l.foldl (fun t (xx, yy) => t.set xx yy (saveToString xx yy)) t).tile ox oy =
    if (ox.1, oy.1) ∈ l then saveToString ox oy else t.tile ox oy
  := by
  induction l generalizing t with
  | nil => rfl
  | cons o l ih =>
      rw [List.foldl_cons, ih]
      by_cases h : (ox.1, oy.1) ∈ l
      · rw [if_pos h, if_pos (List.mem_cons_of_mem _ h)]
      · rw [if_neg h]
        simp only [MetaTile.set, List.mem_cons, h, or_false, Prod.ext_iff]
        split_ifs with ho
        · rw [ho.1, ho.2]
        · rfl

theorem mem_renderOrder_iff :
  (i, j) ∈ renderOrder map z ↔
    i < renderSize map.prj.aspectX z ∧ j < renderSize map.prj.aspectY z
  := by
  simp [renderOrder, and_comm]

theorem mem_expireOrder_iff :
  (i, j) ∈ t.expireOrder ↔
    i < min (2 ^ t.z.toInt.toNat) metatile ∧ j < min (2 ^ t.z.toInt.toNat) metatile
  := by
  simp [MetaTile.expireOrder]

theorem rendered_eq :
  rendered map t =
    rectangle t.x t.y (renderSize map.prj.aspectX t.z) (renderSize map.prj.aspectY t.z)
  := by
  ext p
  constructor
  · rintro ⟨⟨i, j⟩, ho, rfl⟩
    obtain ⟨hi, hj⟩ := mem_renderOrder_iff.mp ho
    exact ⟨i, hi, j, hj, rfl⟩
  · rintro ⟨i, hi, j, hj, rfl⟩
    exact ⟨(i, j), mem_renderOrder_iff.mpr ⟨hi, hj⟩, rfl⟩

theorem purged_of_neg (h : sock < 0) :
  purged t sock host uri = ∅
  := by
  simp [purged, MetaTile.expireTiles, h]

theorem purged_eq (h : 0 ≤ sock) :
  purged t sock host uri =
    rectangle t.x t.y (min (2 ^ t.z.toInt.toNat) metatile) (min (2 ^ t.z.toInt.toNat) metatile)
  := by
  have hsock : ¬ sock < 0 := by omega
  ext p
  simp only [purged, MetaTile.expireTiles, cacheExpire, cacheExpireUrl, hsock, if_false,
    List.map_cons, List.map_nil, Set.mem_ofPred_eq, List.mem_flatMap, List.mem_singleton,
    Prod.mk.injEq]
  constructor
  · rintro ⟨datagram, ⟨i, j⟩, ho, rfl, -⟩
    obtain ⟨hi, hj⟩ := mem_expireOrder_iff.mp ho
    exact ⟨i, hi, j, hj, rfl⟩
  · rintro ⟨i, hi, j, hj, rfl⟩
    exact ⟨_, (i, j), mem_expireOrder_iff.mpr ⟨hi, hj⟩, rfl, rfl⟩

theorem checkXyz_iff :
  checkXyz x y z map = true ↔ (map.minzoom ≤ z.toInt ∧ z.toInt ≤ map.maxzoom) ∧
    (0 ≤ x.toInt ∧ x.toInt < 2 ^ z.toInt.toNat * map.prj.aspectX) ∧
    0 ≤ y.toInt ∧ y.toInt < 2 ^ z.toInt.toNat * map.prj.aspectY
  := by
  rw [checkXyz]
  split_ifs with h
  · constructor
    · intro h'
      contradiction
    · omega
  · simp only [Bool.not_eq_true', Bool.or_eq_false_iff, decide_eq_false_iff_not]
    omega

/-- A number of tiles that is one or two times a power of two is at most eight, or a multiple
of eight. -/
theorem le_or_dvd {A : ℤ} (hA : A = 1 ∨ A = 2) (k : ℕ) :
  2 ^ k * A ≤ 8 ∨ (8 : ℤ) ∣ 2 ^ k * A
  := by
  rcases Nat.lt_or_ge k 3 with h | h
  · left
    have hpow : (2 : ℤ) ^ k ≤ 2 ^ 2 := pow_le_pow_right₀ (by decide) (by omega)
    rcases hA with rfl | rfl
    all_goals omega
  · right
    apply Dvd.dvd.mul_right
    apply pow_dvd_pow 2 h

/-- In one direction, the tiles of the block with a tile of the map that are tiles of the map
are those that are rendered. -/
theorem lt_renderSize_iff {A : ℤ} (hA : A = 1 ∨ A = 2) (h0 : 0 ≤ x.toInt)
    (h : x.toInt < 2 ^ z.toInt.toNat * A) (hi : i < metatile) :
  x.toInt - x.toInt % 8 + i < 2 ^ z.toInt.toNat * A ↔ i < renderSize A z
  := by
  rw [renderSize, mul_comm A, Int.lt_toNat]
  rw [metatile] at hi ⊢
  have hdvd := le_or_dvd hA z.toInt.toNat
  generalize (2 : ℤ) ^ z.toInt.toNat * A = n at *
  rw [lt_min_iff]
  omega

theorem renderSize_bounds {A : ℤ} (hA : A = 1 ∨ A = 2) :
  0 < renderSize A z ∧ renderSize A z ≤ metatile
  := by
  have hpow : (0 : ℤ) < 2 ^ z.toInt.toNat := by positivity
  rw [renderSize, metatile]
  rcases hA with rfl | rfl
  all_goals omega

/-- The number of tiles that are rendered in one direction is the number of those that are
purged, exactly when the aspect ratio is one or the zoom level is three at least. -/
theorem renderSize_eq_iff {A : ℤ} (hA : A = 1 ∨ A = 2) (h0 : 0 ≤ z.toInt) :
  renderSize A z = min (2 ^ z.toInt.toNat) metatile ↔ A = 1 ∨ 3 ≤ z.toInt
  := by
  have hcast : ((2 ^ z.toInt.toNat : ℕ) : ℤ) = 2 ^ z.toInt.toNat := by push_cast; rfl
  have hlow : z.toInt < 3 → (2 : ℤ) ^ z.toInt.toNat ≤ 2 ^ 2 := fun h =>
    pow_le_pow_right₀ (by decide) (by omega)
  have hhigh : 3 ≤ z.toInt → (2 : ℤ) ^ 3 ≤ 2 ^ z.toInt.toNat := fun h =>
    pow_le_pow_right₀ (by decide) (by omega)
  have hpos : (0 : ℤ) < 2 ^ z.toInt.toNat := by positivity
  rw [renderSize, metatile]
  rcases hA with rfl | rfl
  all_goals omega

theorem aspect_cases (srs : List UInt8) :
  ((getProjection srs).aspectX = 1 ∨ (getProjection srs).aspectX = 2) ∧
    ((getProjection srs).aspectY = 1 ∨ (getProjection srs).aspectY = 2)
  := by
  rcases XmlMapConfig.getProjection_cases srs with h | h | h
  all_goals simp [h]

/-- The block of a tile of the map has as many tiles of the map as are rendered. -/
theorem valid_eq (hX : map.prj.aspectX = 1 ∨ map.prj.aspectX = 2)
    (hY : map.prj.aspectY = 1 ∨ map.prj.aspectY = 2) (hcheck : checkXyz x y z map = true)
    (hx : t.x = metatileOrigin x) (hy : t.y = metatileOrigin y) (hz : t.z = z) :
  valid map t =
    rectangle t.x t.y (renderSize map.prj.aspectX t.z) (renderSize map.prj.aspectY t.z)
  := by
  obtain ⟨hzoom, ⟨hx0, hxlt⟩, hy0, hylt⟩ := checkXyz_iff.mp hcheck
  have hleX := (renderSize_bounds (z := z) hX).2
  have hleY := (renderSize_bounds (z := z) hY).2
  have hcoord : ∀ {n : Int32} (i : ℕ), i < metatile →
      (metatileOrigin n + Int32.ofNat i).toInt = n.toInt - n.toInt % 8 + i := by
    intro n i hi
    have hmod : (metatileOrigin n).toInt % metatile = 0 := by
      rw [metatileOrigin, Bits.toInt_and_not_seven, metatile]
      omega
    rw [MetaTile.toInt_add_ofNat hmod ⟨i, hi⟩, metatileOrigin, Bits.toInt_and_not_seven]
  have haccept : ∀ i j, i < metatile → j < metatile →
      (checkXyz (metatileOrigin x + Int32.ofNat i) (metatileOrigin y + Int32.ofNat j) z map = true ↔
        i < renderSize map.prj.aspectX z ∧ j < renderSize map.prj.aspectY z) := by
    intro i j hi hj
    rw [checkXyz_iff, and_iff_right hzoom, hcoord i hi, hcoord j hj,
      lt_renderSize_iff hX hx0 hxlt hi, lt_renderSize_iff hY hy0 hylt hj]
    omega
  rw [hx, hy, hz]
  ext p
  constructor
  · rintro ⟨⟨i, hi, j, hj, rfl⟩, hp⟩
    rw [hx, hy, hz] at hp
    obtain ⟨hiX, hjY⟩ := (haccept i j hi hj).mp hp
    rw [hx, hy]
    exact ⟨i, hiX, j, hjY, rfl⟩
  · rintro ⟨i, hi, j, hj, rfl⟩
    constructor
    · rw [hx, hy]
      exact ⟨i, by omega, j, by omega, rfl⟩
    · rw [hz]
      apply (haccept i j (by omega) (by omega)).mpr ⟨hi, hj⟩

/-! ### The maps of a rendering thread -/

/-- A map of a rendering thread has zoom levels from zero on and one of the projections. -/
theorem spec_of_mem_renderThreadMaps
    (hmaps : processMapSections ini configFileName tileDir numThreads = .ok maps)
    (hmap : map ∈ renderThreadMaps o maps) :
  0 ≤ map.minzoom ∧ (map.prj.aspectX = 1 ∨ map.prj.aspectX = 2) ∧
    (map.prj.aspectY = 1 ∨ map.prj.aspectY = 2)
  := by
  obtain ⟨i, hi, rfl⟩ := List.mem_mapIdx.mp hmap
  use (processMapSections_zooms hmaps _ (List.getElem_mem hi)).1
  apply aspect_cases

/-- For a tile of a map, the tiles of its metatile that are tiles of the map are those whose data
is set when the metatile is rendered.  They are the tiles that are purged exactly when there is
a socket for the purges and the map is square or the zoom level is three at least. -/
theorem rendered_valid_purged
    (hmaps : processMapSections ini configFileName tileDir numThreads = .ok maps)
    (hmap : map ∈ renderThreadMaps o maps) (hcheck : checkXyz x y z map = true)
    (hx : t.x = metatileOrigin x) (hy : t.y = metatileOrigin y) (hz : t.z = z) :
  rendered map t = valid map t ∧
    (∀ saveToString ox oy, (renderTiles map z saveToString t).tile ox oy =
      if checkXyz (t.x + Int32.ofNat ox) (t.y + Int32.ofNat oy) z map then saveToString ox oy
      else t.tile ox oy) ∧
    ∀ sock host uri, purged t sock host uri = valid map t ↔
      0 ≤ sock ∧ (map.prj.aspectX = 1 ∧ map.prj.aspectY = 1 ∨ 3 ≤ z.toInt)
  := by
  obtain ⟨hmin, hX, hY⟩ := spec_of_mem_renderThreadMaps hmaps hmap
  have hvalid := valid_eq hX hY hcheck hx hy hz
  have hbX := renderSize_bounds (z := z) hX
  have hbY := renderSize_bounds (z := z) hY
  have h0 : 0 ≤ z.toInt := by
    have hzoom := (checkXyz_iff.mp hcheck).1
    omega
  constructor
  · rw [rendered_eq, hvalid]
  constructor
  · intro saveToString ox oy
    have hmem : (t.x + Int32.ofNat ox, t.y + Int32.ofNat oy) ∈ valid map t ↔
        checkXyz (t.x + Int32.ofNat ox) (t.y + Int32.ofNat oy) z map = true := by
      rw [← hz]
      apply and_iff_right
      exact ⟨ox, ox.2, oy, oy.2, rfl⟩
    rw [renderTiles, foldl_set]
    congr 1
    rw [← hmem, hvalid, mem_renderOrder_iff, hz, mem_rectangle_iff ox.2 oy.2 hbX.2 hbY.2]
  · intro sock host uri
    rcases lt_or_ge sock 0 with hsock | hsock
    · apply iff_of_false
      · rw [purged_of_neg hsock, hvalid, hz]
        intro h
        have hmem : (t.x + Int32.ofNat 0, t.y + Int32.ofNat 0) ∈ (∅ : Set (Int32 × Int32)) := by
          rw [h]
          exact ⟨0, hbX.1, 0, hbY.1, rfl⟩
        contradiction
      · omega
    · have hlimit : 0 < min (2 ^ z.toInt.toNat) metatile ∧
          min (2 ^ z.toInt.toNat) metatile ≤ metatile := by
        use lt_min (by positivity) (by decide)
        apply min_le_right
      rw [purged_eq hsock, hvalid, hz, eq_comm, rectangle_inj hbX hbY hlimit hlimit,
        and_iff_right hsock, renderSize_eq_iff hX h0, renderSize_eq_iff hY h0]
      omega

/-- The maps of a file with the map `hills`, and its map in a rendering thread when the style has
the given reference system. -/
def sampleMaps (srs : List UInt8) : Option (List XmlConfigItem × XmlMapConfig) := do
  let maps ← (processMapSections (sampleFile (Bytes.ofString "hills")
    TileModule.zero_notMem_hills) [] [] 0).toOption
  let map ← (renderThreadMaps (fun _ => ⟨true, true, srs⟩) maps).head?
  return (maps, map)

theorem sampleMaps_spec {srs : List UInt8} (h : sampleMaps srs = some (maps, map)) :
  processMapSections (sampleFile (Bytes.ofString "hills") TileModule.zero_notMem_hills) [] [] 0 =
      .ok maps ∧
    map ∈ renderThreadMaps (fun _ => ⟨true, true, srs⟩) maps
  := by
  simp only [sampleMaps, Option.bind_eq_bind, Option.bind_eq_some_iff, Option.pure_def,
    Option.some.injEq, Prod.mk.injEq] at h
  obtain ⟨maps, hmaps, map, hmap, rfl, rfl⟩ := h
  exact ⟨eq_ok_of_toOption hmaps, List.mem_of_head? hmap⟩

/-- The reference system of the plate carrée projection. -/
def plateCarree : List UInt8 :=
  Bytes.ofString ("+proj=eqc +lat_ts=0 +lat_0=0 +lon_0=0 +x_0=0 +y_0=0 " ++
    "+ellps=WGS84 +datum=WGS84 +units=m +no_defs")

/-- A metatile with no data at the origin. -/
def sampleTile (z : Int32) : MetaTile where
  xmlconfig := Bytes.ofString "hills"
  options := []
  x := 0
  y := 0
  z := z
  tile := fun _ _ => []

/-- The four tiles of the zoom level one of a square map are rendered and purged. -/
theorem rendered_valid_purged_square :
  ∃ maps map, sampleMaps [] = some (maps, map) ∧ checkXyz 1 0 1 map = true ∧
    rendered map (sampleTile 1) = valid map (sampleTile 1) ∧
    ∀ host uri, purged (sampleTile 1) 0 host uri = valid map (sampleTile 1)
  := by
  have hrun : (sampleMaps []).map (fun r => (checkXyz 1 0 1 r.2, r.2.prj)) =
      some (true, ⟨1, 1⟩) := by
    decide +kernel
  obtain ⟨⟨maps, map⟩, hsample, hresult⟩ := Option.map_eq_some_iff.mp hrun
  obtain ⟨hcheck, hprj⟩ := Prod.mk.inj hresult
  obtain ⟨hmaps, hmap⟩ := sampleMaps_spec hsample
  obtain ⟨hrendered, -, hpurged⟩ := rendered_valid_purged (t := sampleTile 1) hmaps hmap hcheck
    (by decide) (by decide) rfl
  use maps, map, hsample, hcheck, hrendered
  intro host uri
  apply (hpurged 0 host uri).mpr
  change map.prj = ⟨1, 1⟩ at hprj
  simp [hprj]

/-- At the zoom level zero of the plate carrée projection, the tile with `x` one is valid and
rendered, but it is not purged. -/
theorem rendered_not_purged :
  ∃ maps map, sampleMaps plateCarree = some (maps, map) ∧
    checkXyz 0 0 0 map = true ∧ checkXyz 1 0 0 map = true ∧
    (1, 0) ∈ renderOrder map (sampleTile 0).z ∧
    ∀ host uri, (sampleTile 0).expireTiles 0 host uri =
      (cacheExpire 0 host uri 0 0 0).map fun datagram => ((0, 0), datagram)
  := by
  have hrun : (sampleMaps plateCarree).map
      (fun r => (checkXyz 0 0 0 r.2, checkXyz 1 0 0 r.2, renderOrder r.2 0)) =
        some (true, true, [(0, 0), (1, 0)]) := by
    decide +kernel
  obtain ⟨⟨maps, map⟩, hsample, hresult⟩ := Option.map_eq_some_iff.mp hrun
  obtain ⟨hcheck, hresult⟩ := Prod.mk.inj hresult
  obtain ⟨hcheck', horder⟩ := Prod.mk.inj hresult
  use maps, map, hsample, hcheck, hcheck'
  constructor
  · change (1, 0) ∈ renderOrder map 0
    rw [horder]
    decide
  · intro host uri
    rfl

end RenderedTiles
