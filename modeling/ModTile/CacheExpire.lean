import ModTile.Htcp
import ModTile.RenderedTiles
import ModTile.TileModule.TilePaths

/-!
# The pages that a cache is asked to drop

A cache in front of the server keeps the tiles that the module has sent.  When `renderd` has drawn a
metatile it asks the cache to drop the addresses of its tiles.  The two programs read the same
configuration file but make the addresses on their own: the module takes them apart, with the
extension of the layer, and `cache_expire` puts them together, always with the extension `png`.

The datagrams are well formed, and what they ask for are the addresses under which the module serves
the tiles, if the layer is one for the extension `png` without parameters.  For all other layers the
addresses are those of no tile.
-/

namespace CacheExpire

open RenderdConfig TileModule

variable {sock : ℤ} {host uri url datagram : List UInt8} {x y z : Int32} {n k i : ℕ} {t : MetaTile}

/-! ### The datagrams -/

theorem short_putU16 (h : n < 2 ^ 16) :
  Htcp.short ((UInt16.ofNat n >>> 8).toUInt8) (UInt16.ofNat n).toUInt8 = n
  := by
  have hvalue : (UInt16.ofNat n).toNat = n := UInt16.toNat_ofNat_of_lt' h
  rw [Htcp.short, UInt16.toNat_toUInt8, UInt16.toNat_toUInt8, UInt16.toNat_shiftRight, hvalue]
  have height : (8 : UInt16).toNat % 16 = 8 := rfl
  rw [height, Nat.shiftRight_eq_div_pow]
  omega

/-- The page of a request is read back. -/
theorem specifier_append (hurl : url.length < 2 ^ 16) :
  Htcp.specifier (putU16 4 ++ Bytes.ofString "HEAD" ++ putU16 (UInt16.ofNat url.length) ++ url ++
      putU16 8 ++ Bytes.ofString "HTTP/1.1" ++ putU16 0) =
    some ⟨Bytes.ofString "HEAD", url, Bytes.ofString "HTTP/1.1", []⟩
  := by
  have hempty : Htcp.countstr [((0 : UInt16) >>> 8).toUInt8, (0 : UInt16).toUInt8] =
      some ([], []) := rfl
  simp only [putU16, List.append_assoc, List.cons_append, List.nil_append]
  rw [Htcp.specifier, Htcp.countstr_append (by decide), Option.bind_some,
    Htcp.countstr_append (short_putU16 hurl), Option.bind_some,
    Htcp.countstr_append (by decide), Option.bind_some, hempty, Option.bind_some, if_pos rfl]

/-- The datagram for an address asks to drop this address. -/
theorem clears_cacheExpireUrl (hsock : 0 ≤ sock) (hurl : url.length < 1024) :
  ∃ datagram, cacheExpireUrl sock url = [datagram] ∧
    Htcp.clears datagram = some ⟨Bytes.ofString "HEAD", url, Bytes.ofString "HTTP/1.1", []⟩
  := by
  rw [cacheExpireUrl, if_neg (by omega)]
  refine ⟨_, rfl, ?_⟩
  rw [← specifier_append (hurl.trans (by decide))]
  have hhead : (Bytes.ofString "HEAD").length = 4 := rfl
  have hhttp : (Bytes.ofString "HTTP/1.1").length = 8 := rfl
  simp only [putU16, putU32, List.append_assoc, List.cons_append, List.nil_append]
  apply Htcp.clears_cons
  · rw [short_putU16 (by omega)]
    simp only [List.length_cons, List.length_append, List.length_nil, hhead, hhttp]
    omega
  · rw [short_putU16 (by omega)]
    simp only [List.length_cons, List.length_append, List.length_nil, hhead, hhttp]
    omega

theorem length_signed_le (v : Int32) :
  (Bytes.signed v.toInt).length ≤ 11
  := by
  have hlow := v.le_toInt
  have hhigh := v.toInt_lt
  have hdigits : (Bytes.decimal v.toInt.natAbs).length ≤ 10 :=
    Bytes.length_decimal_le (by decide) (by omega)
  rw [Bytes.signed]
  split_ifs
  · rw [List.length_cons]
    omega
  · omega

/-- The datagram for a tile asks to drop its address. -/
theorem clears_cacheExpire (hsock : 0 ≤ sock) (hlength : host.length + uri.length ≤ 977) :
  ∃ datagram, cacheExpire sock host uri x y z = [datagram] ∧
    Htcp.clears datagram = some ⟨Bytes.ofString "HEAD", Bytes.ofString "http://" ++ host ++
      tilePath uri (Bytes.ofString "png") z.toInt x.toInt y.toInt, Bytes.ofString "HTTP/1.1", []⟩
  := by
  have hx := length_signed_le x
  have hy := length_signed_le y
  have hz := length_signed_le z
  have htext : Bytes.ofString "http://" ++ host ++ uri ++ Bytes.signed z.toInt ++
      Bytes.ofString "/" ++ Bytes.signed x.toInt ++ Bytes.ofString "/" ++ Bytes.signed y.toInt ++
      Bytes.ofString ".png" = Bytes.ofString "http://" ++ host ++
        tilePath uri (Bytes.ofString "png") z.toInt x.toInt y.toInt := by
    have hslash : Bytes.ofString "/" = [47] := rfl
    have hpng : Bytes.ofString ".png" = 46 :: Bytes.ofString "png" := rfl
    simp only [tilePath, hslash, hpng, List.append_assoc, List.cons_append, List.nil_append]
  have hle : (Bytes.ofString "http://" ++ host ++
      tilePath uri (Bytes.ofString "png") z.toInt x.toInt y.toInt).length < 1024 := by
    have hhttp : (Bytes.ofString "http://").length = 7 := rfl
    have hpng : (Bytes.ofString "png").length = 3 := rfl
    simp only [tilePath, List.length_append, List.length_cons, hhttp, hpng]
    omega
  rw [cacheExpire, if_neg (by omega), htext, List.take_of_length_le (Nat.le_of_lt_succ hle)]
  exact clears_cacheExpireUrl hsock hle

/-- A datagram for a metatile is one for one of its tiles, and asks to drop its address. -/
theorem clears_expireTiles (hsock : 0 ≤ sock) (hlength : host.length + uri.length ≤ 977)
    (h : ((x, y), datagram) ∈ t.expireTiles sock host uri) :
  Htcp.clears datagram = some ⟨Bytes.ofString "HEAD", Bytes.ofString "http://" ++ host ++
    tilePath uri (Bytes.ofString "png") t.z.toInt x.toInt y.toInt, Bytes.ofString "HTTP/1.1", []⟩
  := by
  rw [MetaTile.expireTiles, if_neg (by omega)] at h
  obtain ⟨⟨ox, oy⟩, -, hmem⟩ := List.mem_flatMap.mp h
  obtain ⟨sent, hsent, heq⟩ := List.mem_map.mp hmem
  obtain ⟨hpoint, rfl⟩ := Prod.mk.inj heq
  obtain ⟨rfl, rfl⟩ := Prod.mk.inj hpoint
  obtain ⟨datagram, hdatagram, hclears⟩ := clears_cacheExpire (x := t.x + Int32.ofNat ox)
    (y := t.y + Int32.ofNat oy) (z := t.z) hsock hlength
  rw [hdatagram, List.mem_singleton] at hsent
  rw [hsent, hclears]

/-! ### The layer of an address -/

variable {s u rest : List UInt8} {v : ℤ}

/-- A text without digits that a path with a number begins with ends before the number. -/
theorem prefix_of_prefix_append_signed (hs : ∀ c ∈ s, Bytes.isDigit c = false ∧ c ≠ 45)
    (h : s <+: u ++ (Bytes.signed v ++ rest)) :
  s <+: u
  := by
  rcases List.prefix_or_prefix_of_prefix h (List.prefix_append u _) with hprefix | ⟨r, rfl⟩
  · exact hprefix
  · cases r with
    | nil => rw [List.append_nil]
    | cons c r =>
        obtain ⟨hdigit, hsign⟩ := hs c (List.mem_append_right u List.mem_cons_self)
        obtain ⟨d, text, htext⟩ := List.exists_cons_of_ne_nil (signed_ne_nil v)
        rw [List.prefix_append_right_inj, htext, List.cons_append, List.cons_prefix_cons] at h
        have hmem : c ∈ Bytes.signed v := by
          rw [htext, h.1]
          exact List.mem_cons_self
        exact absurd hmem (Bytes.notMem_signed hdigit hsign)

/-- The path of a tile is reserved only if that of its layer is. -/
theorem reservedHandler_tilePath {e : List UInt8} {z x y : ℤ}
    (hstats : ¬ Bytes.ofString "/mod_tile" <+: u) (hmetrics : ¬ Bytes.ofString "/metrics" <+: u) :
  reservedHandler (tilePath u e z x y) = none
  := by
  rw [reservedHandler, if_neg, if_neg]
  · intro h
    exact hmetrics (prefix_of_prefix_append_signed (by decide +kernel)
      (Bytes.samePrefix_length.mp h))
  · intro h
    exact hstats (prefix_of_prefix_append_signed (by decide +kernel)
      (Bytes.samePrefix_length.mp h))

variable {scfg conf : ServerConf} {configFileName configFileName' tileDir : List UInt8}
  {ini : List IniSection} {numThreads : ℤ} {maps : List XmlConfigItem} {m : XmlConfigItem}
  {config : TileConfigRec}

/-- A layer of a configuration file gets all the paths below its path if there is no other layer
below its path. -/
theorem selectLayer_of_forall (hconf : scfg.loadTileConfig configFileName (some ini) = .ok conf)
    (hempty : scfg.configs = []) (hconfig : conf.configs[k]? = some config)
    (halone : ∀ j config', conf.configs[j]? = some config' →
      config.baseuri <+: config'.baseuri → j = k) :
  selectLayer (config.baseuri ++ rest) 0 conf.configs = some (k, config)
  := by
  have hprefix : config.baseuri <+: config.baseuri ++ rest := List.prefix_append _ _
  have hsome : (selectLayer (config.baseuri ++ rest) 0 conf.configs).isSome = true :=
    isSome_selectLayer.mpr ⟨config, List.mem_of_getElem? hconfig, hprefix⟩
  obtain ⟨⟨i, config'⟩, hselect⟩ := Option.isSome_iff_exists.mp hsome
  obtain ⟨j, hij, hj, hconfig', hbefore⟩ := selectLayer_eq_some hselect
  obtain rfl : i = j := by omega
  have hik : i = k := by
    rcases Nat.lt_trichotomy i k with hlt | heq | hgt
    · obtain ⟨hi, rfl⟩ := List.getElem?_eq_some_iff.mp hj
      obtain ⟨hk, rfl⟩ := List.getElem?_eq_some_iff.mp hconfig
      have hlength := List.pairwise_iff_getElem.mp (pairwise_baseuri hconf hempty) i k hi hk hlt
        hconfig' hprefix
      exact halone i _ hj (List.prefix_of_prefix_length_le hprefix hconfig' hlength.le)
    · exact heq
    · exact absurd hprefix (hbefore k hgt config hconfig)
  subst hik
  rw [hselect, Option.some.inj (hj.symm.trans hconfig)]

/-- The two programs agree on the path of a map. -/
theorem baseuri_eq_xmluri
    (hmaps : processMapSections ini configFileName tileDir numThreads = .ok maps)
    (hconf : scfg.loadTileConfig configFileName' (some ini) = .ok conf) (hempty : scfg.configs = [])
    (hm : maps[k]? = some m) (hconfig : conf.configs[k]? = some config)
    (hlength : m.xmluri.length < pathMax) :
  config.baseuri = m.xmluri
  := by
  obtain ⟨maps', hmaps', hconfigs⟩ := loadTileConfig_spec hconf
  rw [hconfigs, hempty, List.nil_append, List.getElem?_map, Option.map_eq_some_iff] at hconfig
  obtain ⟨m', hm', rfl⟩ := hconfig
  have hsections := (processMapSections_spec hmaps).1
  have hsections' := (processMapSections_spec hmaps').1
  obtain ⟨hk, rfl⟩ := List.getElem?_eq_some_iff.mp hm
  obtain ⟨hk', rfl⟩ := List.getElem?_eq_some_iff.mp hm'
  have huri := (processMapSection_spec (hsections.get (hsections.length_eq ▸ hk) hk)).2
  have huri' := (processMapSection_spec (hsections'.get (hsections'.length_eq ▸ hk') hk')).2
  have heq : maps'[k].xmluri = maps[k].xmluri := huri'.trans huri.symm
  obtain ⟨hle, hlast⟩ := processMapSections_xmluri hmaps _ (List.getElem_mem hk)
  change normalizeBaseuri maps'[k].xmluri = _
  rw [heq]
  rcases normalizeBaseuri_spec hle hlast with hsame | ⟨-, hmax⟩
  · exact hsame
  · omega

/-! ### The addresses of the tiles -/

/-- The place of a tile in its metatile is below the number of tiles that there are. -/
theorem offset_lt {a : Int32} (ha : 0 ≤ a.toInt) (hi : i < metatile)
    (hnonneg : 0 ≤ (a + Int32.ofNat i).toInt) (hlt : (a + Int32.ofNat i).toInt < 2 ^ n) :
  i < min (2 ^ n) metatile
  := by
  have hhigh := a.toInt_lt
  rw [metatile] at hi
  have hvalue : (a + Int32.ofNat i).toInt = a.toInt + i := by
    rw [Int32.toInt_add, Int32.toInt_ofNat_of_lt (by omega)] at hnonneg ⊢
    rw [Int.bmod_def] at hnonneg ⊢
    split_ifs at hnonneg ⊢ with hsmall
    · omega
    · omega
  have hcast : ((2 ^ n : ℕ) : ℤ) = 2 ^ n := by norm_num
  rw [metatile, lt_min_iff]
  omega

/-- A datagram is sent for every tile of the map in the block, if the map is square. -/
theorem mem_purged {p : Int32 × Int32} (hsock : 0 ≤ sock) (htx : 0 ≤ t.x.toInt)
    (hty : 0 ≤ t.y.toInt) (haspectX : config.aspectX = 1) (haspectY : config.aspectY = 1)
    (hp : p ∈ RenderedTiles.rectangle t.x t.y metatile metatile)
    (htile : HasTile config t.z.toInt p.1.toInt p.2.toInt) :
  p ∈ RenderedTiles.purged t sock host uri
  := by
  have hone : (1 : Int32).toInt = 1 := rfl
  have hxlt := htile.x_lt
  have hylt := htile.y_lt
  rw [haspectX, hone, one_mul] at hxlt
  rw [haspectY, hone, one_mul] at hylt
  rw [RenderedTiles.purged_eq hsock]
  obtain ⟨i, hi, j, hj, rfl⟩ := hp
  refine ⟨i, ?_, j, ?_, rfl⟩
  · exact offset_lt htx hi htile.x_nonneg hxlt
  · exact offset_lt hty hj htile.y_nonneg hylt

variable {o : Store.InitOutcome} {userdata : Userdata}
  {store : Store.StorageBackend} {stores : List (Option Store.StorageBackend)}

/-- Two programs that have read one configuration file agree on the addresses of a layer: for a
metatile of the layer, `renderd` asks the cache to drop addresses that the module translates to the
tiles of the metatile, and all of these if the map is square.  For a layer with parameters or
another extension than `png` the module declines what the cache is asked to drop. -/
theorem purges_served
    (hmaps : processMapSections ini configFileName tileDir numThreads = .ok maps)
    (hconf : scfg.loadTileConfig configFileName' (some ini) = .ok conf) (hempty : scfg.configs = [])
    (hm : maps[k]? = some m) (hconfig : conf.configs[k]? = some config)
    (halone : ∀ j config', conf.configs[j]? = some config' →
      config.baseuri <+: config'.baseuri → j = k)
    (hstats : ¬ Bytes.ofString "/mod_tile" <+: m.xmluri)
    (hmetrics : ¬ Bytes.ofString "/metrics" <+: m.xmluri)
    (hlength : m.host.length + m.xmluri.length ≤ 977)
    (hstore : getStorageBackend o conf.configs k userdata = some (some store, stores))
    (hcontext : store.hasContext = true) (hsock : 0 ≤ sock) (htx : 0 ≤ t.x.toInt)
    (hty : 0 ≤ t.y.toInt) :
  (∀ locals x y datagram, ((x, y), datagram) ∈ t.expireTiles sock m.host m.xmluri →
      ∃ path, Htcp.clears datagram = some ⟨Bytes.ofString "HEAD",
          Bytes.ofString "http://" ++ m.host ++ path, Bytes.ofString "HTTP/1.1", []⟩ ∧
        if config.fileExtension = Bytes.ofString "png" ∧ config.enableOptions = 0 then
          HasTile config t.z.toInt x.toInt y.toInt →
            ∃ cmd, tileTranslate locals o conf.configs path userdata =
                some ⟨.ok .tileServe, some ⟨some cmd, some store, k⟩, some stores⟩ ∧
              IsTile config cmd t.z.toInt x.toInt y.toInt
        else
          tileTranslate locals o conf.configs path userdata = some ⟨.declined, none, userdata⟩) ∧
    (config.aspectX = 1 → config.aspectY = 1 →
      ∀ p ∈ RenderedTiles.rectangle t.x t.y metatile metatile,
        HasTile config t.z.toInt p.1.toInt p.2.toInt →
          p ∈ RenderedTiles.purged t sock m.host m.xmluri)
  := by
  have hbaseuri : config.baseuri = m.xmluri := by
    apply baseuri_eq_xmluri hmaps hconf hempty hm hconfig
    rw [pathMax]
    omega
  have hpng : PlainExtension (Bytes.ofString "png") :=
    ⟨by decide, by decide, by decide, by decide⟩
  constructor
  · intro locals x y datagram hdatagram
    refine ⟨tilePath m.xmluri (Bytes.ofString "png") t.z.toInt x.toInt y.toInt,
      clears_expireTiles hsock hlength hdatagram, ?_⟩
    have hreserved : reservedHandler (tilePath config.baseuri (Bytes.ofString "png") t.z.toInt
        x.toInt y.toInt) = none := by
      rw [hbaseuri]
      exact reservedHandler_tilePath hstats hmetrics
    have hselect : selectLayer (tilePath config.baseuri (Bytes.ofString "png") t.z.toInt x.toInt
        y.toInt) 0 conf.configs = some (k, config) :=
      selectLayer_of_forall hconf hempty hconfig halone
    rw [← hbaseuri]
    split_ifs with hserves
    · intro htile
      obtain ⟨hextension, hoptions⟩ := hserves
      have hsupported : Supported config :=
        supported_loadTileConfig (by simp [hempty]) hconf config (List.mem_of_getElem? hconfig)
      rw [← hextension] at hpng hreserved hselect ⊢
      exact tileTranslate_tilePath hsupported hoptions hpng htile hreserved hselect hstore hcontext
    · apply tileTranslate_tilePath_declined hpng _ hreserved hselect
      rw [not_and_or] at hserves
      exact hserves.symm
  · intro haspectX haspectY p hp htile
    exact mem_purged hsock htx hty haspectX haspectY hp htile

/-- A map under the path `/osm/` of the host `localhost`. -/
def sampleSection : IniSection where
  name := Bytes.ofString "osm"
  getstring := fun key =>
    if key = "uri" then some (Bytes.ofString "/osm")
    else if key = "host" then some (Bytes.ofString "localhost")
    else if key = "attribution" then some (Bytes.ofString "OSM")
    else none
  getint := fun _ => none
  getdouble := fun _ => none
  name_nonzero := zero_notMem_osm

/-- The layer of the map. -/
def sampleLayer : TileConfigRec :=
  sampleServer.tileConfigRec (Bytes.ofString "/osm/") (Bytes.ofString "osm") 0
    (Int32.ofNat maxZoom) 1 1 (Bytes.ofString "png") (Bytes.ofString "image/png") []
    (Bytes.ofString "OSM") [] [] [] 0

/-- The metatile of a tile. -/
def sampleMetaTile : MetaTile where
  xmlconfig := Bytes.ofString "osm"
  options := []
  x := 8
  y := 16
  z := 5
  tile := fun _ _ => []

/-- The address of a tile is dropped, and is the one for which the module serves it. -/
theorem purges_served_sample :
  ∃ datagram path cmd,
    ((11, 17), datagram) ∈
      sampleMetaTile.expireTiles 3 (Bytes.ofString "localhost") (Bytes.ofString "/osm/") ∧
    Htcp.clears datagram = some ⟨Bytes.ofString "HEAD", Bytes.ofString "http://localhost" ++ path,
      Bytes.ofString "HTTP/1.1", []⟩ ∧
    tileTranslate zeroLocals ⟨some true, true⟩ [sampleLayer] path none =
      some ⟨.ok .tileServe, some ⟨some cmd, some ⟨.file, Bytes.ofString "/tiles"⟩, 0⟩,
        some [some ⟨.file, Bytes.ofString "/tiles"⟩]⟩ ∧
    IsTile sampleLayer cmd 5 11 17
  := by
  have hrun : (processMapSections [sampleSection] [] [] 1).toOption.bind (fun maps =>
      (sampleServer.loadTileConfig [] (some [sampleSection])).toOption.map fun conf =>
        (maps.map XmlConfigItem.xmluri, maps.map XmlConfigItem.host, conf.configs)) =
      some ([Bytes.ofString "/osm/"], [Bytes.ofString "localhost"], [sampleLayer]) := by
    decide +kernel
  obtain ⟨maps, hmaps, hrun⟩ := Option.bind_eq_some_iff.mp hrun
  obtain ⟨conf, hconf, hrun⟩ := Option.map_eq_some_iff.mp hrun
  obtain ⟨huris, hrun⟩ := Prod.mk.inj hrun
  obtain ⟨hhosts, hconfigs⟩ := Prod.mk.inj hrun
  obtain ⟨m, rfl, huri⟩ := List.map_eq_singleton_iff.mp huris
  have hhost : m.host = Bytes.ofString "localhost" := List.singleton_inj.mp hhosts
  have hstore : getStorageBackend ⟨some true, true⟩ conf.configs 0 none =
      some (some ⟨.file, Bytes.ofString "/tiles"⟩, [some ⟨.file, Bytes.ofString "/tiles"⟩]) := by
    rw [hconfigs]
    decide +kernel
  have halone : ∀ j config', conf.configs[j]? = some config' →
      sampleLayer.baseuri <+: config'.baseuri → j = 0 := by
    intro j config' hj _
    obtain ⟨hlt, -⟩ := List.getElem?_eq_some_iff.mp hj
    rw [hconfigs, List.length_singleton] at hlt
    omega
  have htile :
      HasTile sampleLayer sampleMetaTile.z.toInt (11 : Int32).toInt (17 : Int32).toInt := by
    constructor <;> decide
  obtain ⟨hserved, hall⟩ := purges_served (t := sampleMetaTile) (k := 0)
    (eq_ok_of_toOption hmaps) (eq_ok_of_toOption hconf) rfl rfl (by rw [hconfigs]; rfl) halone
    (by rw [huri]; decide) (by rw [huri]; decide) (by rw [huri, hhost]; decide) hstore rfl
    (show (0 : ℤ) ≤ 3 by decide) (by decide) (by decide)
  obtain ⟨datagram, hdatagram⟩ :=
    hall rfl rfl (11, 17) ⟨3, by decide, 1, by decide, by decide⟩ htile
  obtain ⟨path, hclears, hpath⟩ := hserved zeroLocals 11 17 datagram hdatagram
  rw [if_pos ⟨by decide, rfl⟩] at hpath
  obtain ⟨cmd, htranslate, hcmd⟩ := hpath htile
  rw [huri, hhost] at hdatagram
  rw [hhost] at hclears
  rw [hconfigs] at htranslate
  exact ⟨datagram, path, cmd, hdatagram, hclears, htranslate, hcmd⟩

end CacheExpire
