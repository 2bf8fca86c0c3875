import ModTile.Renderd.System
import ModTile.RenderdConfig
import ModTile.StoreFile

/-!
# The files of the metatiles of a map

A metatile that a rendering thread has stored in the file store can be read from its file.
The file store is meant to keep each metatile in its own file.  The hash in the path has
twenty bits for each coordinate, and a map with a square projection has at most that many
columns and rows of tiles.  The plate carrée and the British projections are twice as wide
as high and twice as high as wide, so that at the largest zoom level one coordinate needs one
bit more.
-/

open StoreFileUtils (xyzoToMeta Fits)

namespace RenderOutcome

variable {o : RenderOutcome} {item : Item} {tileDir : List UInt8} {files : Files} {x y : Int32}
  {w : StoreFile.WriteOutcome} {r : StoreFile.ReadOutcome} {sz : ℕ}

/-- The storage backend of the rendering thread is the file store. -/
def UsesFileStore (o : RenderOutcome) (item : Item) (tileDir : List UInt8) (files : Files)
    (w : StoreFile.WriteOutcome) : Prop :=
  o.metatileWrite = (StoreFile.fileMetatileWrite tileDir files item.req.xmlnameString
    item.req.optionsString item.mx item.my item.req.z (o.metaTile item).metatilebuffer
    (Int32.ofInt (o.metaTile item).length) w).1

/-- With the file store, a metatile is stored when it has been saved. -/
theorem UsesFileStore.stored_eq (h : o.UsesFileStore item tileDir files w) :
  o.stored item = (StoreFile.save (o.metaTile item) tileDir files o.allocated w).1
  := by
  rw [stored, h, StoreFile.save]
  cases o.allocated
  · rfl
  · rfl

/-- The metatile of an item is aligned. -/
theorem aligned_metaTile (hx : item.mx = metatileOrigin x) (hy : item.my = metatileOrigin y) :
  (o.metaTile item).Aligned
  := by
  constructor
  case x_mod =>
    rw [metaTile, hx, metatileOrigin, Bits.toInt_and_not_seven, metatile]
    omega
  case y_mod =>
    rw [metaTile, hy, metatileOrigin, Bits.toInt_and_not_seven, metatile]
    omega

/-- The tiles of a metatile that has been stored are read as they were rendered. -/
theorem UsesFileStore.fileTileRead_eq (h : o.UsesFileStore item tileDir files w)
    (hx : item.mx = metatileOrigin x) (hy : item.my = metatileOrigin y)
    (hs : (o.metaTile item).Small) (hstored : o.stored item = true) (hr : r.Undisturbed)
    (ox oy : Fin metatile) (hsz : (o.tile ox oy).length ≤ sz) :
  StoreFile.fileTileRead tileDir
      (StoreFile.save (o.metaTile item) tileDir files o.allocated w).2 item.req.xmlnameString
      item.req.optionsString (item.mx + Int32.ofNat ox) (item.my + Int32.ofNat oy) item.req.z sz r =
    ⟨(o.tile ox oy).length, o.tile ox oy, some 0, none⟩
  := by
  have ha : (o.metaTile item).Aligned := aligned_metaTile hx hy
  have hfile := StoreFile.file_of_save ha hs (h.stored_eq.symm.trans hstored)
  apply StoreFile.fileTileRead_tile ha hs hr hfile ox oy hsz

end RenderOutcome

namespace XmlMapConfig

variable {map : XmlMapConfig} {tileDir options srs : List UInt8} {x y z x' y' z' : Int32}

/-- The metatile of a tile is one that a rendering thread renders for the map. -/
def Admits (map : XmlMapConfig) (x y z : Int32) : Prop :=
  checkXyz (metatileOrigin x) (metatileOrigin y) z map = true

/-- Tiles of different metatiles have different paths. -/
def OwnFiles (map : XmlMapConfig) (tileDir options : List UInt8) : Prop :=
  ∀ x y z x' y' z', map.Admits x y z → map.Admits x' y' z' →
    (xyzoToMeta pathMax tileDir map.xmlname options x y z).1 =
      (xyzoToMeta pathMax tileDir map.xmlname options x' y' z').1 →
    z = z' ∧ x.toInt / metatile = x'.toInt / metatile ∧ y.toInt / metatile = y'.toInt / metatile

/-- The aspect ratios of the projections. -/
theorem getProjection_cases (srs : List UInt8) :
  getProjection srs = ⟨1, 1⟩ ∨ getProjection srs = ⟨2, 1⟩ ∨ getProjection srs = ⟨1, 2⟩
  := by
  rw [getProjection]
  split_ifs
  all_goals simp

/-- The bounds of the coordinates of a metatile that is rendered. -/
theorem admits_iff :
  map.Admits x y z ↔ map.minzoom ≤ z.toInt ∧ z.toInt ≤ map.maxzoom ∧
    0 ≤ x.toInt - x.toInt % 8 ∧
      x.toInt - x.toInt % 8 < 2 ^ z.toInt.toNat * map.prj.aspectX ∧
    0 ≤ y.toInt - y.toInt % 8 ∧
      y.toInt - y.toInt % 8 < 2 ^ z.toInt.toNat * map.prj.aspectY
  := by
  rw [Admits, checkXyz]
  split_ifs with h
  · constructor
    · intro h'
      contradiction
    · omega
  · simp only [metatileOrigin, Bits.toInt_and_not_seven, Bool.not_eq_true', Bool.or_eq_false_iff,
      decide_eq_false_iff_not]
    omega

/-- If metatiles have their own files, tiles with the same hash are in the same metatile. -/
theorem OwnFiles.of_hash (hown : map.OwnFiles tileDir options) (h : map.Admits x y z)
    (h' : map.Admits x' y' z) (hhash : StoreFileUtils.hash x y = StoreFileUtils.hash x' y') :
  x.toInt / metatile = x'.toInt / metatile ∧ y.toInt / metatile = y'.toInt / metatile
  := by
  have hpath : (xyzoToMeta pathMax tileDir map.xmlname options x y z).1 =
      (xyzoToMeta pathMax tileDir map.xmlname options x' y' z).1 := by
    rw [xyzoToMeta, xyzoToMeta, StoreFileUtils.metaText_eq_iff.mpr ⟨rfl, hhash⟩]
  apply (hown x y z x' y' z h h' hpath).2

/-- At the largest zoom level two metatiles of a map that is not square share a file. -/
theorem not_ownFiles (hmax : map.maxzoom = 20) (hmin : map.minzoom ≤ 20)
    (hprj : map.prj = ⟨2, 1⟩ ∨ map.prj = ⟨1, 2⟩) :
  ¬ map.OwnFiles tileDir options
  := by
  intro hown
  have hfirst : map.Admits 0 0 20 := by
    rcases hprj with hprj | hprj
    all_goals simp [admits_iff, hmax, hmin, hprj]
  rcases hprj with hprj | hprj
  · have hsecond : map.Admits 1048576 0 20 := by
      simp [admits_iff, hmax, hmin, hprj]
    have h := hown.of_hash hfirst hsecond (by decide)
    simp [metatile] at h
  · have hsecond : map.Admits 0 1048576 20 := by
      simp [admits_iff, hmax, hmin, hprj]
    have h := hown.of_hash hfirst hsecond (by decide)
    simp [metatile] at h

/-- The coordinates of a metatile have at most twenty bits when the largest zoom level is left
out or the map is square. -/
theorem Admits.lt_two_pow (h : map.Admits x y z) (hmax : map.maxzoom ≤ 20)
    (hprj : map.prj = getProjection srs)
    (hsmall : map.maxzoom < 20 ∨ map.prj.aspectX = map.prj.aspectY) :
  x.toInt - x.toInt % 8 < 2 ^ 20 ∧ y.toInt - y.toInt % 8 < 2 ^ 20
  := by
  obtain ⟨-, hz, -, hx, -, hy⟩ := admits_iff.mp h
  have hbound : 2 ^ z.toInt.toNat * map.prj.aspectX ≤ 2 ^ 20 ∧
      2 ^ z.toInt.toNat * map.prj.aspectY ≤ 2 ^ 20 := by
    rcases hsmall with hsmall | hsquare
    · have hpow : (2 : ℤ) ^ z.toInt.toNat ≤ 2 ^ 19 := pow_le_pow_right₀ (by decide) (by omega)
      rcases getProjection_cases srs with he | he | he
      all_goals
        rw [hprj, he]
        dsimp only
        omega
    · have hpow : (2 : ℤ) ^ z.toInt.toNat ≤ 2 ^ 20 := pow_le_pow_right₀ (by decide) (by omega)
      rcases getProjection_cases srs with he | he | he
      all_goals
        rw [hprj, he] at hsquare ⊢
        dsimp only at hsquare ⊢
        omega
  use hx.trans_le hbound.1, hy.trans_le hbound.2

/-- The metatiles of a map have their own files exactly when the map leaves out the largest
zoom level or its projection is square. -/
theorem ownFiles_iff {maxzoom minzoom : Option ℤ}
    (hzooms : RenderdConfig.processZooms maxzoom minzoom = .ok (map.maxzoom, map.minzoom))
    (hprj : map.prj = getProjection srs)
    (hfits : ∀ x y z, map.Admits x y z → Fits pathMax tileDir map.xmlname options x y z) :
  map.OwnFiles tileDir options ↔
    map.maxzoom < maxZoom ∨ map.prj.aspectX = map.prj.aspectY
  := by
  obtain ⟨hmin, hle, hmax⟩ := RenderdConfig.processZooms_bounds hzooms
  rw [maxZoom, Nat.cast_ofNat] at hmax ⊢
  constructor
  · intro hown
    rcases getProjection_cases srs with he | he | he
    · right
      rw [hprj, he]
    · left
      by_contra h
      apply not_ownFiles (by omega) (by omega) (Or.inl (hprj.trans he)) hown
    · left
      by_contra h
      apply not_ownFiles (by omega) (by omega) (Or.inr (hprj.trans he)) hown
  · intro hsmall x y z x' y' z' h h' hpath
    rw [StoreFileUtils.path_eq_metaText (hfits x y z h),
      StoreFileUtils.path_eq_metaText (hfits x' y' z' h'), StoreFileUtils.metaText_eq_iff,
      StoreFileUtils.hash_eq_iff] at hpath
    obtain ⟨hx, hy⟩ := h.lt_two_pow hmax hprj hsmall
    obtain ⟨hx', hy'⟩ := h'.lt_two_pow hmax hprj hsmall
    obtain ⟨-, -, hx0, -, hy0, -⟩ := admits_iff.mp h
    obtain ⟨-, -, hx0', -, hy0', -⟩ := admits_iff.mp h'
    use hpath.1
    rw [metatile]
    omega

/-- A map with all zoom levels and the projection for a reference system. -/
def sample (srs : List UInt8) : XmlMapConfig where
  xmlname := Bytes.ofString "default"
  minzoom := 0
  maxzoom := 20
  ok := true
  prj := getProjection srs

/-- The paths of a map with a short name fit. -/
theorem fits_sample (h : (sample srs).Admits x y z) :
  Fits pathMax (Bytes.ofString "/var/cache/tiles") (sample srs).xmlname [] x y z
  := by
  obtain ⟨hmin, hmax, -⟩ := admits_iff.mp h
  apply StoreFileUtils.fits_of_length hmin hmax
  simp [sample, Bytes.ofString, pathMax]

/-- The metatiles of a map in the Mercator projection have their own files. -/
theorem ownFiles_mercator :
  (sample (Bytes.ofString "+proj=merc +a=6378137 +b=6378137")).OwnFiles
    (Bytes.ofString "/var/cache/tiles") []
  := by
  have hzooms : RenderdConfig.processZooms none none = .ok (20, 0) := rfl
  apply (ownFiles_iff hzooms rfl fun _ _ _ => fits_sample).mpr
  right
  decide +kernel

/-- In the plate carrée projection the tiles `(0, 0)` and `(1048576, 0)` of zoom level 20 are
both rendered, into the same file. -/
theorem plateCarree_shared :
  let map := sample (Bytes.ofString ("+proj=eqc +lat_ts=0 +lat_0=0 +lon_0=0 +x_0=0 +y_0=0 " ++
    "+ellps=WGS84 +datum=WGS84 +units=m +no_defs"))
  RenderdConfig.processZooms none none = .ok (map.maxzoom, map.minzoom) ∧
    map.Admits 0 0 20 ∧ map.Admits 1048576 0 20 ∧
    xyzoToMeta pathMax (Bytes.ofString "/var/cache/tiles") map.xmlname [] 0 0 20 =
      xyzoToMeta pathMax (Bytes.ofString "/var/cache/tiles") map.xmlname [] 1048576 0 20 ∧
    (0 : Int32).toInt / metatile ≠ (1048576 : Int32).toInt / metatile
  := by
  simp only [Admits]
  decide +kernel

end XmlMapConfig
