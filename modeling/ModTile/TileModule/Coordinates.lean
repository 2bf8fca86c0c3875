import ModTile.TileModule.Translate

/-!
# The coordinates in request paths

`tile_translate` reads the numbers in the path of a tile with 64 bits and keeps 32 of them.  So
the tile that is served is the one that the path names exactly when all three numbers fit into
an `int`: a number that does not fit is cut to some other number, and if that is a coordinate of
the layer, another tile is served.
-/

namespace TileModule

open Store

/-- The text before the last dot. -/
def stem (filename : List UInt8) : List UInt8 :=
  if 46 ∈ filename then ((filename.reverse.dropWhile (· ≠ 46)).drop 1).reverse else filename

/-- The texts of the zoom level and of the coordinates in the parts of a path. -/
def coordinateTexts (config : TileConfigRec) (elts : List (List UInt8)) :
    Option (List UInt8 × List UInt8 × List UInt8) :=
  match if config.enableOptions ≠ 0 then elts.drop 1 else elts with
  | z :: x :: y :: _ => some (z, x, stem y)
  | _ => none

/-- The zoom level and the coordinates in a path of the layer, as numbers of any size. -/
def coordinates (config : TileConfigRec) (uri : List UInt8) : Option (ℤ × ℤ × ℤ) := do
  let (zStr, xStr, yStr) ←
    coordinateTexts config (Bytes.tokens 47 (uri.drop config.baseuri.length))
  let z ← Bytes.integer zStr
  let x ← Bytes.integer xStr
  let y ← Bytes.integer yStr
  return (z, x, y)

/-- The number fits into an `int`. -/
def FitsInt (n : ℤ) : Prop := -2 ^ 31 ≤ n ∧ n < 2 ^ 31

instance (n : ℤ) : Decidable (FitsInt n) := inferInstanceAs (Decidable (_ ∧ _))

/-- The command is for the tile with the given zoom level and coordinates, and these are those of
a tile of the layer. -/
structure IsTile (config : TileConfigRec) (cmd : Protocol) (z x y : ℤ) : Prop where
  z_eq : cmd.z.toInt = z
  x_eq : cmd.x.toInt = x
  y_eq : cmd.y.toInt = y
  minzoom_le : config.minzoom.toInt ≤ z
  le_maxzoom : z ≤ config.maxzoom.toInt
  x_nonneg : 0 ≤ x
  x_lt : x < config.aspectX.toInt * 2 ^ z.toNat
  y_nonneg : 0 ≤ y
  y_lt : y < config.aspectY.toInt * 2 ^ z.toNat

/-- The handlers for tiles. -/
def Handler.isTile (handler : Handler) : Bool :=
  handler = .tileServe || handler = .tileStatus || handler = .tileDirty

variable {config : TileConfigRec} {elts : List (List UInt8)} {uri s : List UInt8}
  {locals : Locals} {path : TilePath} {cmd : Protocol} {n : ℤ} {v : Int32}

/-! ### Reading the numbers -/

/-- The number that is kept of a number of any size. -/
def kept (n : ℤ) : Int32 := Int32.ofInt (max (-2 ^ 63) (min n (2 ^ 63 - 1)))

theorem safeParseInt_eq :
  safeParseInt s = (Bytes.integer s).map kept
  := by
  cases s with
  | nil => rfl
  | cons c s =>
      rw [safeParseInt, if_neg (List.cons_ne_nil c s), Bytes.strtol, Bytes.integer]
      cases hscan : Bytes.scanInt (c :: s) with
      | none => simp
      | some r =>
          obtain ⟨n, rest⟩ := r
          cases rest with
          | nil => rfl
          | cons d rest => rfl

/-- A number is kept as it is exactly when it fits into an `int`. -/
theorem toInt_kept_iff :
  (kept n).toInt = n ↔ FitsInt n
  := by
  rw [FitsInt]
  constructor
  · intro h
    rw [← h]
    exact ⟨Int32.le_toInt _, Int32.toInt_lt _⟩
  · rintro ⟨hle, hlt⟩
    have hclamp : max (-2 ^ 63) (min n (2 ^ 63 - 1)) = n := by omega
    rw [kept, hclamp]
    apply Int32.toInt_ofInt_of_le <;> omega

theorem fst_getExtension {extDest : List.Vector UInt8 256} :
  (getExtension s extDest).1 = stem s
  := by
  rw [getExtension, stem]
  split_ifs with hdot
  · have hsplit := List.takeWhile_append_dropWhile (p := (· ≠ 46)) (l := s.reverse)
    obtain ⟨dot, before, hbefore⟩ := List.exists_cons_of_ne_nil
      (show s.reverse.dropWhile (· ≠ 46) ≠ [] by simpa using hdot)
    rw [hbefore] at hsplit ⊢
    generalize s.reverse.takeWhile (· ≠ 46) = extension at hsplit ⊢
    have htext : s = before.reverse ++ dot :: extension.reverse := by
      rw [← List.reverse_reverse s, ← hsplit]
      simp
    have hlength := congrArg List.length htext
    rw [List.length_append, List.length_cons] at hlength
    have hcount : s.length - extension.reverse.length - 1 = before.reverse.length := by
      omega
    dsimp only
    rw [List.drop_one, List.tail_cons, hcount, htext, List.take_left]
  · rfl

/-- The numbers in the parts of a path that is read. -/
theorem readCoordinates_spec {ver : Int32} {parameters zStr xStr yStr : List UInt8}
    {option : Option (List UInt8)}
    (h : readCoordinates locals ver parameters zStr xStr yStr option = some path) :
  ∃ z x y, Bytes.integer zStr = some z ∧ Bytes.integer xStr = some x ∧
    Bytes.integer (stem yStr) = some y ∧
    path.cmd.z = kept z ∧ path.cmd.x = kept x ∧ path.cmd.y = kept y
  := by
  have hstem : (getExtension yStr locals.extension).1 = stem yStr := fst_getExtension
  rw [readCoordinates] at h
  cases hsplit : getExtension yStr locals.extension with
  | mk yStr' extension =>
  rw [hsplit] at h hstem
  obtain ⟨z', hz, h⟩ := Option.bind_eq_some_iff.mp h
  obtain ⟨x', hx, h⟩ := Option.bind_eq_some_iff.mp h
  obtain ⟨y', hy, h⟩ := Option.bind_eq_some_iff.mp h
  obtain rfl := Option.some.inj h
  dsimp only at hstem
  subst hstem
  rw [safeParseInt_eq] at hz hx hy
  obtain ⟨z, hzStr, hz⟩ := Option.map_eq_some_iff.mp hz
  obtain ⟨x, hxStr, hx⟩ := Option.map_eq_some_iff.mp hx
  obtain ⟨y, hyStr, hy⟩ := Option.map_eq_some_iff.mp hy
  exact ⟨z, x, y, hzStr, hxStr, hyStr, hz.symm, hx.symm, hy.symm⟩

/-- The numbers in a path that is read. -/
theorem readTilePath_spec
    (h : readTilePath locals config (Bytes.tokens 47 (uri.drop config.baseuri.length)) =
      some path) :
  ∃ z x y, coordinates config uri = some (z, x, y) ∧
    path.cmd.z = kept z ∧ path.cmd.x = kept x ∧ path.cmd.y = kept y
  := by
  rw [coordinates, coordinateTexts]
  generalize Bytes.tokens 47 (uri.drop config.baseuri.length) = elts at h
  unfold readTilePath at h
  split_ifs at h ⊢
  · split at h
    · obtain ⟨z, x, y, hz, hx, hy, hcmd⟩ := readCoordinates_spec h
      refine ⟨z, x, y, ?_, hcmd⟩
      simp [hz, hx, hy]
    · contradiction
  · split at h
    · obtain ⟨z, x, y, hz, hx, hy, hcmd⟩ := readCoordinates_spec h
      refine ⟨z, x, y, ?_, hcmd⟩
      simp [hz, hx, hy]
    · contradiction

/-! ### The bounds of a layer -/

theorem toInt_one_shiftLeft {z : Int32} (hz : 0 ≤ z.toInt) (hle : z.toInt ≤ 30) :
  ((1 : Int32) <<< z).toInt = 2 ^ z.toInt.toNat
  := by
  have hall : ∀ k : Fin 31, ((1 : Int32) <<< Int32.ofNat k).toInt = 2 ^ k.val := by decide
  have hz' : z = Int32.ofNat z.toInt.toNat := by
    apply Int32.toInt_inj.mp
    rw [Int32.toInt_ofNat_of_lt (by omega)]
    omega
  have hk := hall ⟨z.toInt.toNat, by omega⟩
  dsimp only at hk
  rw [← hz'] at hk
  apply hk

/-- A coordinate that passes the test is below the bound, even if the bound does not fit into an
`int`. -/
theorem lt_of_le_bound {limit aspect x : Int32} (hlimit : 0 ≤ limit.toInt)
    (haspect : 0 ≤ aspect.toInt) (hx : 0 ≤ x.toInt) (h : x ≤ limit * aspect - 1) :
  x.toInt < aspect.toInt * limit.toInt
  := by
  have hnonneg : 0 ≤ aspect.toInt * limit.toInt := Int.mul_nonneg haspect hlimit
  have hmod : (limit * aspect - 1).toInt % 2 ^ 32 = (aspect.toInt * limit.toInt - 1) % 2 ^ 32 := by
    rw [Int32.toInt_sub, Int32.toInt_mul, mul_comm limit.toInt]
    have hone : (1 : Int32).toInt = 1 := rfl
    rw [hone, Int.bmod_sub_bmod]
    apply Int.bmod_emod
  have hle := Int32.le_iff_toInt_le.mp h
  have hlt := (limit * aspect - 1).toInt_lt
  generalize (limit * aspect - 1).toInt = r at *
  generalize aspect.toInt * limit.toInt = p at *
  omega

/-- A command that is in bounds is for a tile of the layer. -/
theorem bounds_of_outOfBounds (hsupported : Supported config) (hx : 0 ≤ config.aspectX.toInt)
    (hy : 0 ≤ config.aspectY.toInt) (h : outOfBounds config cmd = false) :
  IsTile config cmd cmd.z.toInt cmd.x.toInt cmd.y.toInt
  := by
  rw [outOfBounds] at h
  split_ifs at h with hzoom
  simp only [not_or, Int32.not_lt] at hzoom
  obtain ⟨hmin, hmax⟩ := hzoom
  rw [Int32.le_iff_toInt_le] at hmin hmax
  obtain ⟨hminzoom, hmaxzoom⟩ := hsupported
  rw [maxZoomServer] at hmaxzoom
  have hlimit := toInt_one_shiftLeft (z := cmd.z) (by omega) (by omega)
  have hlimit' : 0 ≤ ((1 : Int32) <<< cmd.z).toInt := by
    rw [hlimit]
    positivity
  simp only [Bool.or_eq_false_iff, decide_eq_false_iff_not, Int32.not_lt] at h
  obtain ⟨⟨⟨hx0, hxle⟩, hy0⟩, hyle⟩ := h
  rw [Int32.le_iff_toInt_le] at hx0 hy0
  constructor
  case z_eq => rfl
  case x_eq => rfl
  case y_eq => rfl
  case minzoom_le => apply hmin
  case le_maxzoom => apply hmax
  case x_nonneg => apply hx0
  case x_lt =>
    rw [← hlimit]
    apply lt_of_le_bound hlimit' hx hx0 hxle
  case y_nonneg => apply hy0
  case y_lt =>
    rw [← hlimit]
    apply lt_of_le_bound hlimit' hy hy0 hyle

/-! ### The tile that is served -/

section Served

variable {o : InitOutcome} {configs : List TileConfigRec} {userdata : Userdata} {i parts : ℕ}
  {t : Translation} {handler : Handler}

/-- A tile is served only if its coordinates are in bounds. -/
theorem translateTile_of_ok (h : translateTile o configs userdata i config parts path = some t)
    (hstatus : t.status = .ok handler) :
  outOfBounds config path.cmd = false ∧
    ∃ store, t.rdata = some ⟨some (tileCommand config path), store, i⟩
  := by
  rw [translateTile] at h
  split_ifs at h with hextension hbounds
  · obtain rfl := Option.some.inj h
    contradiction
  · obtain rfl := Option.some.inj h
    contradiction
  · split at h
    · contradiction
    · split_ifs at h
      · obtain rfl := Option.some.inj h
        exact ⟨Bool.eq_false_of_not_eq_true hbounds, _, rfl⟩
      · obtain rfl := Option.some.inj h
        contradiction

/-- A tile is served for a path of a layer that is read. -/
theorem translateLayer_of_ok (h : translateLayer locals o configs uri userdata i config = some t)
    (hstatus : t.status = .ok handler) (htile : handler.isTile = true) :
  ∃ path store,
    readTilePath locals config (Bytes.tokens 47 (uri.drop config.baseuri.length)) = some path ∧
    outOfBounds config path.cmd = false ∧
    t.rdata = some ⟨some (tileCommand config path), store, i⟩
  := by
  rw [translateLayer] at h
  split_ifs at h
  · obtain rfl := Option.some.inj h
    obtain rfl := TranslateStatus.ok.inj hstatus
    contradiction
  · dsimp only at h
    split at h
    · obtain rfl := Option.some.inj h
      contradiction
    · rename_i path hpath
      obtain ⟨hbounds, store, hrdata⟩ := translateTile_of_ok h hstatus
      exact ⟨path, store, hpath, hbounds, hrdata⟩

/-- A tile is served for a layer that is selected. -/
theorem tileTranslate_of_ok (h : tileTranslate locals o configs uri userdata = some t)
    (hstatus : t.status = .ok handler) (htile : handler.isTile = true) :
  ∃ i config, selectLayer uri 0 configs = some (i, config) ∧
    translateLayer locals o configs uri userdata i config = some t
  := by
  rw [tileTranslate] at h
  split at h
  · rename_i reserved hreserved
    obtain rfl := Option.some.inj h
    obtain rfl := TranslateStatus.ok.inj hstatus
    rw [reservedHandler] at hreserved
    split_ifs at hreserved
    · obtain rfl := Option.some.inj hreserved
      contradiction
    · obtain rfl := Option.some.inj hreserved
      contradiction
  · split at h
    · obtain rfl := Option.some.inj h
      contradiction
    · exact ⟨_, _, by assumption, h⟩

/-- When a path is accepted as that of a tile, it has numbers for the zoom level and the
coordinates.  The command is for the tile that they name, and this is a tile of the layer,
exactly when all of them fit into an `int`. -/
theorem coordinates_literal_iff {conf : ServerConf} (hconf : Configured conf)
    (h : tileTranslate locals o conf.configs uri userdata = some t)
    (hstatus : t.status = .ok handler) (htile : handler.isTile = true) :
  ∃ i config cmd store z x y, selectLayer uri 0 conf.configs = some (i, config) ∧
    t.rdata = some ⟨some cmd, store, i⟩ ∧ coordinates config uri = some (z, x, y) ∧
    (0 ≤ config.aspectX.toInt → 0 ≤ config.aspectY.toInt →
      (IsTile config cmd z x y ↔ FitsInt z ∧ FitsInt x ∧ FitsInt y))
  := by
  obtain ⟨i, config, hselect, hlayer⟩ := tileTranslate_of_ok h hstatus htile
  obtain ⟨path, store, hpath, hbounds, hrdata⟩ := translateLayer_of_ok hlayer hstatus htile
  obtain ⟨z, x, y, hcoordinates, hz, hx, hy⟩ := readTilePath_spec hpath
  refine ⟨i, config, _, store, z, x, y, hselect, hrdata, hcoordinates, ?_⟩
  intro haspectX haspectY
  have hsupported : Supported config := by
    obtain ⟨j, -, hj, -⟩ := selectLayer_eq_some hselect
    apply hconf.supported config (List.mem_of_getElem? hj)
  have hbounds' := bounds_of_outOfBounds hsupported haspectX haspectY hbounds
  rw [← toInt_kept_iff, ← toInt_kept_iff, ← toInt_kept_iff, ← hz, ← hx, ← hy]
  constructor
  · intro htile
    exact ⟨htile.z_eq, htile.x_eq, htile.y_eq⟩
  · rintro ⟨rfl, rfl, rfl⟩
    exact ⟨rfl, rfl, rfl, hbounds'.minzoom_le, hbounds'.le_maxzoom, hbounds'.x_nonneg,
      hbounds'.x_lt, hbounds'.y_nonneg, hbounds'.y_lt⟩

/-- The path of a tile is translated for that tile. -/
theorem coordinates_literal_iff_sample :
  ∃ conf t config cmd store i,
    sampleTranslation sampleFile (Bytes.ofString "/osm/3/5/2.png") = some (conf, t) ∧
      t.rdata = some ⟨some cmd, store, i⟩ ∧ IsTile config cmd 3 5 2
  := by
  have hrun : ((sampleTranslation sampleFile (Bytes.ofString "/osm/3/5/2.png")).bind fun r =>
      (selectLayer (Bytes.ofString "/osm/3/5/2.png") 0 r.1.configs).bind fun layer =>
        (coordinates layer.2 (Bytes.ofString "/osm/3/5/2.png")).map fun c =>
          (r.2.status, layer.2.aspectX, layer.2.aspectY, c)) =
        some (.ok .tileServe, 1, 1, 3, 5, 2) := by
    decide +kernel
  obtain ⟨⟨conf, t⟩, hsample, hrun⟩ := Option.bind_eq_some_iff.mp hrun
  obtain ⟨⟨i, config⟩, hselect, hrun⟩ := Option.bind_eq_some_iff.mp hrun
  obtain ⟨c, hcoordinates, hrun⟩ := Option.map_eq_some_iff.mp hrun
  obtain ⟨hstatus, hx, hy, rfl⟩ := by simpa only [Prod.mk.injEq] using hrun
  obtain ⟨hconf, htranslate⟩ := sampleTranslation_spec hsample
  obtain ⟨i', config', cmd, store, z, x, y, hselect', hrdata, hcoordinates', hliteral⟩ :=
    coordinates_literal_iff hconf htranslate hstatus rfl
  obtain ⟨rfl, rfl⟩ := Prod.mk.inj (Option.some.inj (hselect.symm.trans hselect'))
  obtain ⟨rfl, rfl, rfl⟩ := by
    simpa only [Option.some.injEq, Prod.mk.injEq] using hcoordinates.symm.trans hcoordinates'
  refine ⟨conf, t, config, cmd, store, i, hsample, hrdata, ?_⟩
  apply (hliteral (by rw [hx]; decide) (by rw [hy]; decide)).mpr
  decide

/-- A path whose numbers do not fit into an `int` is translated for another tile. -/
theorem coordinates_wrap :
  ((sampleTranslation sampleFile (Bytes.ofString "/osm/4294967299/4294967301/2.png")).bind fun r =>
    (selectLayer (Bytes.ofString "/osm/4294967299/4294967301/2.png") 0 r.1.configs).bind
      fun layer => (coordinates layer.2
          (Bytes.ofString "/osm/4294967299/4294967301/2.png")).bind fun c =>
        r.2.rdata.bind fun rdata => rdata.cmd.map fun cmd =>
          (r.2.status, c, cmd.z.toInt, cmd.x.toInt, cmd.y.toInt)) =
    some (.ok .tileServe, (4294967299, 4294967301, 2), 3, 5, 2)
  := by
  decide +kernel

end Served

end TileModule
