import ModTile.Bytes.Strtok
import ModTile.TileModule.Coordinates

/-!
# The paths of the tiles of a layer

The path of a tile is the path of its layer, the zoom level and the coordinates between slashes, and
the extension of the layer after a dot.  The module serves the tile when it is asked for its path,
unless the layer has parameters, for which the path has no part.  A path with another extension is
declined.
-/

namespace TileModule

open Store

/-- The path of a tile under the path of a layer. -/
def tilePath (baseuri extension : List UInt8) (z x y : ℤ) : List UInt8 :=
  baseuri ++ (Bytes.signed z ++ 47 :: (Bytes.signed x ++ 47 :: (Bytes.signed y ++ 46 :: extension)))

/-- The numbers are the zoom level and the coordinates of a tile of the layer, and the layer has not
more tiles than there are numbers of type `int`. -/
structure HasTile (config : TileConfigRec) (z x y : ℤ) : Prop where
  minzoom_le : config.minzoom.toInt ≤ z
  le_maxzoom : z ≤ config.maxzoom.toInt
  x_nonneg : 0 ≤ x
  x_lt : x < config.aspectX.toInt * 2 ^ z.toNat
  y_nonneg : 0 ≤ y
  y_lt : y < config.aspectY.toInt * 2 ^ z.toNat
  columns_le : config.aspectX.toInt * 2 ^ z.toNat ≤ 2 ^ 31
  rows_le : config.aspectY.toInt * 2 ^ z.toNat ≤ 2 ^ 31

/-- The extension of the layer is one that is read back from a path. -/
structure PlainExtension (fileExtension : List UInt8) : Prop where
  dot_notMem : 46 ∉ fileExtension
  slash_notMem : 47 ∉ fileExtension
  zero_notMem : 0 ∉ fileExtension
  length_le : fileExtension.length ≤ 255

variable {config : TileConfigRec} {z x y : ℤ} {locals : Locals} {s e : List UInt8} {cmd : Protocol}

/-! ### The parts of the path -/

theorem integer_signed (n : ℤ) :
  Bytes.integer (Bytes.signed n) = some n
  := by
  have hscan := Bytes.scanInt_signed (s := []) (z := n) (by simp [Bytes.EndsNumber])
  rw [List.append_nil] at hscan
  rw [Bytes.integer, hscan]

theorem signed_ne_nil (n : ℤ) :
  Bytes.signed n ≠ []
  := by
  rw [Bytes.signed]
  split_ifs
  · exact List.cons_ne_nil _ _
  · exact Bytes.decimal_ne_nil

/-- A number is one token. -/
theorem tokensOn_signed (n : ℤ) :
  Bytes.tokensOn (· = 47) (Bytes.signed n) = [Bytes.signed n]
  := by
  apply Bytes.tokensOn_of_forall (signed_ne_nil n)
  intro a ha
  rw [decide_eq_false_iff_not]
  rintro rfl
  exact Bytes.notMem_signed (by decide) (by decide) ha

/-- The parts of the path of a tile after the path of its layer. -/
theorem tokens_tilePath (hextension : PlainExtension e) :
  Bytes.tokens 47 (Bytes.signed z ++ 47 :: (Bytes.signed x ++ 47 :: (Bytes.signed y ++ 46 :: e))) =
    [Bytes.signed z, Bytes.signed x, Bytes.signed y ++ 46 :: e]
  := by
  have hlast :
      Bytes.tokensOn (· = 47) (Bytes.signed y ++ 46 :: e) = [Bytes.signed y ++ 46 :: e] := by
    apply Bytes.tokensOn_of_forall
    · exact List.append_ne_nil_of_left_ne_nil (signed_ne_nil y) _
    · intro a ha
      rw [decide_eq_false_iff_not]
      rintro rfl
      rcases List.mem_append.mp ha with hmem | hmem
      · exact Bytes.notMem_signed (by decide) (by decide) hmem
      · rcases List.mem_cons.mp hmem with heq | hmem
        · cases heq
        · exact hextension.slash_notMem hmem
  change Bytes.tokensOn (· = 47) _ = _
  rw [Bytes.tokensOn_append_cons (by decide), Bytes.tokensOn_append_cons (by decide),
    tokensOn_signed, tokensOn_signed, hlast]
  rfl

/-- The last part of the path is split at the dot. -/
theorem getExtension_append (hdot : 46 ∉ e) (extDest : List.Vector UInt8 256) :
  getExtension (s ++ 46 :: e) extDest = (s, Bytes.storeString e extDest)
  := by
  have hrev : (s ++ 46 :: e).reverse = e.reverse ++ 46 :: s.reverse := by simp
  have htake : ((s ++ 46 :: e).reverse.takeWhile (· ≠ 46)).reverse = e := by
    rw [hrev, List.takeWhile_append_of_pos, List.takeWhile_cons_of_neg (by simp), List.append_nil,
      List.reverse_reverse]
    intro a ha
    rw [decide_eq_true_eq]
    rintro rfl
    exact hdot (List.mem_reverse.mp ha)
  have hlength : (s ++ 46 :: e).length - e.length - 1 = s.length := by
    simp only [List.length_append, List.length_cons]
    omega
  rw [getExtension, htake, if_pos (by simp), hlength, List.take_left]

/-- The path of a tile is read. -/
theorem readTilePath_tilePath (hoptions : config.enableOptions = 0)
    (hextension : PlainExtension e) :
  ∃ path, readTilePath locals config (Bytes.tokens 47
      (Bytes.signed z ++ 47 :: (Bytes.signed x ++ 47 :: (Bytes.signed y ++ 46 :: e)))) = some path ∧
    path.cmd.z = kept z ∧ path.cmd.x = kept x ∧ path.cmd.y = kept y ∧
    Bytes.cString (path.locals.extension.toList ++ path.locals.behind) = e
  := by
  rw [tokens_tilePath hextension, readTilePath.eq_def, if_neg (by simp [hoptions])]
  dsimp only
  rw [readCoordinates, getExtension_append hextension.dot_notMem]
  simp only [safeParseInt_eq, integer_signed, Option.map_some]
  exact ⟨_, rfl, rfl, rfl, rfl,
    Bytes.cString_storeString hextension.zero_notMem hextension.length_le⟩

/-! ### The bounds -/

theorem HasTile.fitsInt (h : HasTile config z x y) (hsupported : Supported config) :
  FitsInt z ∧ FitsInt x ∧ FitsInt y
  := by
  obtain ⟨hmin, hmax⟩ := hsupported
  have h1 := h.minzoom_le
  have h2 := h.le_maxzoom
  have h3 := h.x_nonneg
  have h4 := h.x_lt
  have h5 := h.y_nonneg
  have h6 := h.y_lt
  have h7 := h.columns_le
  have h8 := h.rows_le
  rw [maxZoomServer] at hmax
  simp only [FitsInt]
  omega

/-- A coordinate below the bound passes the test, even if the bound does not fit into an `int`. -/
theorem not_bound_lt {limit aspect v : Int32} (hx : v.toInt < aspect.toInt * limit.toInt)
    (hx0 : 0 ≤ v.toInt) (hle : aspect.toInt * limit.toInt ≤ 2 ^ 31) :
  ¬limit * aspect - 1 < v
  := by
  have hvalue : (limit * aspect - 1).toInt = aspect.toInt * limit.toInt - 1 := by
    have hone : (1 : Int32).toInt = 1 := rfl
    rw [Int32.toInt_sub, Int32.toInt_mul, mul_comm limit.toInt, hone, Int.bmod_sub_bmod,
      Int.bmod_eq_of_le]
    · omega
    · omega
  rw [Int32.not_lt, Int32.le_iff_toInt_le, hvalue]
  omega

/-- The command for a tile of the layer is in bounds. -/
theorem HasTile.outOfBounds (h : HasTile config z x y) (hsupported : Supported config)
    (hz : cmd.z = kept z) (hx : cmd.x = kept x) (hy : cmd.y = kept y) :
  outOfBounds config cmd = false ∧ IsTile config cmd z x y
  := by
  obtain ⟨hfitZ, hfitX, hfitY⟩ := h.fitsInt hsupported
  have hz' : cmd.z.toInt = z := hz ▸ toInt_kept_iff.mpr hfitZ
  have hx' : cmd.x.toInt = x := hx ▸ toInt_kept_iff.mpr hfitX
  have hy' : cmd.y.toInt = y := hy ▸ toInt_kept_iff.mpr hfitY
  obtain ⟨hmin, hmax⟩ := hsupported
  have hlow := h.minzoom_le
  have hhigh := h.le_maxzoom
  rw [maxZoomServer] at hmax
  have hlimit : ((1 : Int32) <<< cmd.z).toInt = 2 ^ z.toNat := by
    rw [toInt_one_shiftLeft (by omega) (by omega), hz']
  have hzoom : ¬(cmd.z < config.minzoom ∨ config.maxzoom < cmd.z) := by
    rw [not_or, Int32.not_lt, Int32.not_lt, Int32.le_iff_toInt_le, Int32.le_iff_toInt_le, hz']
    exact ⟨hlow, hhigh⟩
  constructor
  · rw [TileModule.outOfBounds, if_neg hzoom]
    simp only [Bool.or_eq_false_iff, decide_eq_false_iff_not]
    refine ⟨⟨⟨?_, ?_⟩, ?_⟩, ?_⟩
    · rw [Int32.not_lt, Int32.le_iff_toInt_le, hx']
      exact h.x_nonneg
    · apply not_bound_lt
      · rw [hlimit, hx']
        exact h.x_lt
      · rw [hx']
        exact h.x_nonneg
      · rw [hlimit]
        exact h.columns_le
    · rw [Int32.not_lt, Int32.le_iff_toInt_le, hy']
      exact h.y_nonneg
    · apply not_bound_lt
      · rw [hlimit, hy']
        exact h.y_lt
      · rw [hy']
        exact h.y_nonneg
      · rw [hlimit]
        exact h.rows_le
  · exact ⟨hz', hx', hy', hlow, hhigh, h.x_nonneg, h.x_lt, h.y_nonneg, h.y_lt⟩

/-! ### The translation of the path -/

variable {o : InitOutcome} {configs : List TileConfigRec} {userdata : Userdata} {i : ℕ}
  {store : StorageBackend} {stores : List (Option StorageBackend)}

/-- The path of a tile is not the one of the description of the layer. -/
theorem samePrefix_signed (rest : List UInt8) :
  Bytes.samePrefix 15 (Bytes.signed z ++ rest) (Bytes.ofString "tile-layer.json") = false
  := by
  obtain ⟨c, text, htext⟩ := List.exists_cons_of_ne_nil (signed_ne_nil z)
  rw [Bytes.samePrefix, decide_eq_false_iff_not]
  intro heq
  have hhead := congrArg List.head? heq
  rw [htext, List.cons_append, List.take_succ_cons, List.head?_cons] at hhead
  have hc : c = 116 := Option.some.inj (hhead.trans (by decide))
  apply Bytes.notMem_signed (c := 116) (z := z) (by decide) (by decide)
  rw [htext, hc]
  exact List.mem_cons_self

/-- The path of a tile of a layer without parameters is accepted, for this tile. -/
theorem tileTranslate_tilePath (hsupported : Supported config)
    (hoptions : config.enableOptions = 0) (hextension : PlainExtension config.fileExtension)
    (htile : HasTile config z x y)
    (hreserved : reservedHandler (tilePath config.baseuri config.fileExtension z x y) = none)
    (hselect : selectLayer (tilePath config.baseuri config.fileExtension z x y) 0 configs =
      some (i, config))
    (hstore : getStorageBackend o configs i userdata = some (some store, stores))
    (hcontext : store.hasContext = true) :
  ∃ cmd, tileTranslate locals o configs (tilePath config.baseuri config.fileExtension z x y)
      userdata = some ⟨.ok .tileServe, some ⟨some cmd, some store, i⟩, some stores⟩ ∧
    IsTile config cmd z x y
  := by
  obtain ⟨path, hpath, hz, hx, hy, hext⟩ := readTilePath_tilePath hoptions hextension
  obtain ⟨hbounds, hcmd⟩ := htile.outOfBounds hsupported hz hx hy
  refine ⟨tileCommand config path, ?_, ?_⟩
  · rw [tileTranslate, hreserved, hselect]
    dsimp only
    rw [translateLayer, tilePath, List.drop_left, samePrefix_signed, if_neg (by simp)]
    dsimp only
    rw [hpath, tokens_tilePath hextension]
    dsimp only
    rw [translateTile, if_neg (not_not.mpr hext), hbounds, if_neg (by simp), hstore]
    dsimp only
    rw [if_pos (by exact hcontext), chooseHandler, if_neg (by simp)]
  · exact ⟨hcmd.z_eq, hcmd.x_eq, hcmd.y_eq, hcmd.minzoom_le, hcmd.le_maxzoom, hcmd.x_nonneg,
      hcmd.x_lt, hcmd.y_nonneg, hcmd.y_lt⟩

/-- A path like that of a tile is declined if the layer has parameters or another extension. -/
theorem tileTranslate_tilePath_declined (hextension : PlainExtension e)
    (hother : config.enableOptions ≠ 0 ∨ config.fileExtension ≠ e)
    (hreserved : reservedHandler (tilePath config.baseuri e z x y) = none)
    (hselect : selectLayer (tilePath config.baseuri e z x y) 0 configs = some (i, config)) :
  tileTranslate locals o configs (tilePath config.baseuri e z x y) userdata =
    some ⟨.declined, none, userdata⟩
  := by
  rw [tileTranslate, hreserved, hselect]
  dsimp only
  rw [translateLayer, tilePath, List.drop_left, samePrefix_signed, if_neg (by simp)]
  dsimp only
  by_cases hoptions : config.enableOptions = 0
  · obtain ⟨path, hpath, -, -, -, hext⟩ := readTilePath_tilePath hoptions hextension
    rw [hpath]
    dsimp only
    rw [translateTile, if_pos]
    rw [hext]
    exact (hother.resolve_left (not_not.mpr hoptions)).symm
  · rw [tokens_tilePath hextension, readTilePath.eq_def, if_pos hoptions]

end TileModule
