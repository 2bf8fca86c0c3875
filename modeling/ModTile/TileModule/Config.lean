import ModTile.Bytes.Decimal
import ModTile.RenderdConfig

/-!
# The layers of the Apache module

The directives of `mod_tile.c` that configure layers.  `AddTileConfig` and
`AddTileMimeConfig` add one layer each, and `LoadTileConfigFile` adds a layer for every map
of a configuration file.  The layers of a server are kept in the order of the directives.
-/

namespace TileModule

/-- The largest zoom level of the module. -/
def maxZoomServer : ℤ := 30

/-- The attribution of a layer that has none. -/
def defaultAttribution : List UInt8 :=
  Bytes.ofString ("&copy;<a href='http://www.openstreetmap.org/'>OpenStreetMap</a> and " ++
    "<a href='http://wiki.openstreetmap.org/wiki/Contributors'>contributors</a>, " ++
    "<a href='http://opendatacommons.org/licenses/odbl/'>(ODbL)</a>")

/-- `tile_config_rec`: a layer. -/
structure TileConfigRec where
  hostnames : List (List UInt8)
  attribution : List UInt8
  baseuri : List UInt8
  cors : Option (List UInt8)
  description : List UInt8
  fileExtension : List UInt8
  mimeType : List UInt8
  store : List UInt8
  xmlname : List UInt8
  aspectX : Int32
  aspectY : Int32
  enableOptions : ℕ
  maxzoom : Int32
  minzoom : Int32
  deriving DecidableEq

/-- The part of `tile_server_conf` that the directives for layers use, with the name of the
server. -/
structure ServerConf where
  configs : List TileConfigRec
  tileDir : List UInt8
  serverHostname : Option (List UInt8)

/-- The path of a layer with a slash at its end. -/
def normalizeBaseuri (baseuri : List UInt8) : List UInt8 :=
  if baseuri = [] then [47]
  else if (baseuri.take pathMax).getLast? ≠ some 47 then baseuri ++ [47]
  else baseuri.take pathMax

/-- The name of a server without a slash at its end. -/
def normalizeAlias (serverAlias : List UInt8) : List UInt8 :=
  if (serverAlias.take pathMax).getLast? = some 47 then (serverAlias.take pathMax).dropLast
  else serverAlias

/-- A layer of the server. -/
def ServerConf.tileConfigRec (scfg : ServerConf) (baseuri name : List UInt8)
    (minzoom maxzoom aspectX aspectY : Int32)
    (fileExtension mimeType description attribution serverAlias cors tileDir : List UInt8)
    (enableOptions : ℕ) : TileConfigRec where
  hostnames :=
    (match scfg.serverHostname with
      | none => Bytes.ofString "http://localhost"
      | some hostname => Bytes.ofString "http://" ++ hostname) ::
    (if serverAlias = [] then [] else [normalizeAlias serverAlias])
  attribution := if attribution = [] then defaultAttribution else attribution.take pathMax
  baseuri := normalizeBaseuri baseuri
  cors := if cors = [] then none else some (cors.take pathMax)
  description := description.take pathMax
  fileExtension := fileExtension.take pathMax
  mimeType := mimeType.take pathMax
  store := if tileDir = [] then scfg.tileDir.take pathMax else tileDir.take pathMax
  xmlname := name.take pathMax
  aspectX := aspectX
  aspectY := aspectY
  enableOptions := enableOptions
  maxzoom := maxzoom
  minzoom := minzoom

/-- The server with one more layer. -/
def ServerConf.push (scfg : ServerConf) (config : TileConfigRec) : ServerConf :=
  { scfg with configs := scfg.configs ++ [config] }

/-- The reasons to reject a directive. -/
inductive DirectiveError where
  | noPath
  | noName
  | zoomOutside
  | noConfigFile
  | mapSections (e : RenderdConfig.MapError)

/-- The message for an error. -/
def DirectiveError.message : DirectiveError → List UInt8
  | noPath => Bytes.ofString "AddTileConfig error, URL path not defined"
  | noName => Bytes.ofString "AddTileConfig error, name of renderd config not defined"
  | zoomOutside =>
      Bytes.ofString ("AddTileConfig error, the configured zoom level lies outside of the " ++
        "range supported by this server")
  | noConfigFile => Bytes.ofString "LoadTileConfigFile error, unable to open config file"
  | mapSections e => e.message

/-- `AddTileMimeConfig`. -/
def ServerConf.addTileMimeConfig (scfg : ServerConf) (baseuri name fileExtension : List UInt8) :
    ServerConf :=
  let (cors, mimeType) :=
    if fileExtension = Bytes.ofString "js" then (Bytes.ofString "*", "text/javascript")
    else ([], "image/png")
  scfg.push (scfg.tileConfigRec baseuri name 0 (Int32.ofNat maxZoom) 1 1 fileExtension
    (Bytes.ofString mimeType) [] [] [] cors [] 0)

/-- The arguments of `AddTileConfig` after the path and the name. -/
structure LayerArguments where
  maxzoom : Int32 := Int32.ofNat maxZoom
  minzoom : Int32 := 0
  fileExtension : List UInt8 := Bytes.ofString "png"
  mimeType : List UInt8 := Bytes.ofString "image/png"
  tileDir : List UInt8 := []

/-- The arguments after one more argument, of the form `key=value`.  Others are ignored. -/
def LayerArguments.read (args : LayerArguments) (arg : List UInt8) : LayerArguments :=
  let key := arg.takeWhile (· ≠ 61)
  match arg.dropWhile (· ≠ 61) with
  | [] => args
  | _ :: value =>
      if key = Bytes.ofString "maxzoom" then
        { args with maxzoom := Int32.ofInt (Bytes.strtol value).1 }
      else if key = Bytes.ofString "minzoom" then
        { args with minzoom := Int32.ofInt (Bytes.strtol value).1 }
      else if key = Bytes.ofString "extension" then { args with fileExtension := value }
      else if key = Bytes.ofString "mimetype" then { args with mimeType := value }
      else if key = Bytes.ofString "tile_dir" then { args with tileDir := value }
      else args

/-- `AddTileConfig`. -/
def ServerConf.addTileConfig (scfg : ServerConf) :
    List (List UInt8) → Except DirectiveError ServerConf
  | [] => .error .noPath
  | [_] => .error .noName
  | baseuri :: name :: argv =>
      let args := argv.foldl LayerArguments.read {}
      if args.minzoom < 0 ∨ args.maxzoom.toInt > maxZoomServer then .error .zoomOutside
      else .ok (scfg.push (scfg.tileConfigRec baseuri name args.minzoom args.maxzoom 1 1
        args.fileExtension args.mimeType [] [] [] [] args.tileDir 0))

/-- The layer for a map of a configuration file. -/
def ServerConf.mapLayer (scfg : ServerConf) (m : RenderdConfig.XmlConfigItem) : TileConfigRec :=
  scfg.tileConfigRec m.xmluri m.xmlname (Int32.ofInt m.minZoom) (Int32.ofInt m.maxZoom)
    (Int32.ofInt m.aspectX) (Int32.ofInt m.aspectY) m.fileExtension m.mimeType m.description
    m.attribution m.serverAlias m.cors m.tileDir m.parameterization.length

/-- `LoadTileConfigFile`, for a file that is not there or has the given sections. -/
def ServerConf.loadTileConfig (scfg : ServerConf) (configFileName : List UInt8)
    (file : Option (List RenderdConfig.IniSection)) : Except DirectiveError ServerConf :=
  match file with
  | none => .error .noConfigFile
  | some ini =>
      match RenderdConfig.processMapSections ini configFileName [] 0 with
      | .error e => .error (.mapSections e)
      | .ok maps => .ok (maps.foldl (fun scfg m => scfg.push (scfg.mapLayer m)) scfg)

/-- `merge_tile_config`: the layers of a virtual host come after those of the main server. -/
def ServerConf.merge (base overrides : ServerConf) : ServerConf :=
  { overrides with configs := base.configs ++ overrides.configs }

/-- A server that is configured by the directives for layers, in any order. -/
inductive Configured : ServerConf → Prop where
  | server (tileDir : List UInt8) (serverHostname : Option (List UInt8)) :
      Configured ⟨[], tileDir, serverHostname⟩
  | tileDir {scfg : ServerConf} (dir : List UInt8) :
      Configured scfg → Configured { scfg with tileDir := dir }
  | addTileMimeConfig {scfg : ServerConf} (baseuri name fileExtension : List UInt8) :
      Configured scfg → Configured (scfg.addTileMimeConfig baseuri name fileExtension)
  | addTileConfig {scfg conf : ServerConf} {argv : List (List UInt8)} :
      Configured scfg → scfg.addTileConfig argv = .ok conf → Configured conf
  | loadTileConfig {scfg conf : ServerConf} {configFileName : List UInt8}
      {file : Option (List RenderdConfig.IniSection)} :
      Configured scfg → scfg.loadTileConfig configFileName file = .ok conf → Configured conf
  | merge {base overrides : ServerConf} :
      Configured base → Configured overrides → Configured (base.merge overrides)

/-! ### The layers of a configuration file -/

open RenderdConfig

variable {scfg conf : ServerConf} {configFileName uri : List UInt8} {ini : List IniSection}

/-- The layers that are added for maps. -/
theorem configs_foldl_push (maps : List XmlConfigItem) (scfg : ServerConf) :
  (maps.foldl (fun scfg m => scfg.push (scfg.mapLayer m)) scfg).configs =
    scfg.configs ++ maps.map scfg.mapLayer
  := by
  induction maps generalizing scfg with
  | nil => simp
  | cons m maps ih =>
      rw [List.foldl_cons, ih, ServerConf.push, List.append_assoc]
      rfl

/-- A file that is loaded has been accepted, and its maps are the layers that are added. -/
theorem loadTileConfig_spec (h : scfg.loadTileConfig configFileName (some ini) = .ok conf) :
  ∃ maps, processMapSections ini configFileName [] 0 = .ok maps ∧
    conf.configs = scfg.configs ++ maps.map scfg.mapLayer
  := by
  rw [ServerConf.loadTileConfig] at h
  split at h
  · contradiction
  · rename_i maps hmaps
    obtain rfl := Except.ok.inj h
    exact ⟨maps, hmaps, configs_foldl_push maps scfg⟩

/-- The zoom levels of a layer are ones that the module supports. -/
def Supported (config : TileConfigRec) : Prop :=
  0 ≤ config.minzoom.toInt ∧ config.maxzoom.toInt ≤ maxZoomServer

theorem supported_push {config : TileConfigRec} (h : ∀ c ∈ scfg.configs, Supported c)
    (hconfig : Supported config) :
  ∀ c ∈ (scfg.push config).configs, Supported c
  := by
  intro c hc
  rcases List.mem_append.mp hc with hc | hc
  · apply h c hc
  · obtain rfl := List.mem_singleton.mp hc
    apply hconfig

theorem supported_addTileConfig {argv : List (List UInt8)} (h : ∀ c ∈ scfg.configs, Supported c)
    (hconf : scfg.addTileConfig argv = .ok conf) :
  ∀ c ∈ conf.configs, Supported c
  := by
  match argv, hconf with
  | [], hconf => contradiction
  | [_], hconf => contradiction
  | baseuri :: name :: argv, hconf =>
      rw [ServerConf.addTileConfig] at hconf
      split_ifs at hconf with hzoom
      obtain rfl := Except.ok.inj hconf
      obtain ⟨hmin, hmax⟩ := not_or.mp hzoom
      apply supported_push h
      exact ⟨Int32.le_iff_toInt_le.mp (Int32.not_lt.mp hmin), Int.not_lt.mp hmax⟩

theorem supported_loadTileConfig {file : Option (List IniSection)}
    (h : ∀ c ∈ scfg.configs, Supported c)
    (hconf : scfg.loadTileConfig configFileName file = .ok conf) :
  ∀ c ∈ conf.configs, Supported c
  := by
  cases file with
  | none => contradiction
  | some ini =>
      obtain ⟨maps, hmaps, hconfigs⟩ := loadTileConfig_spec hconf
      intro c hc
      rw [hconfigs] at hc
      rcases List.mem_append.mp hc with hc | hc
      · apply h c hc
      · obtain ⟨m, hm, rfl⟩ := List.mem_map.mp hc
        obtain ⟨hmin, hle, hmax⟩ := processMapSections_zooms hmaps m hm
        have hmaxZoom : (maxZoom : ℤ) = 20 := rfl
        rw [Supported, maxZoomServer]
        simp only [ServerConf.mapLayer, ServerConf.tileConfigRec]
        rw [Int32.toInt_ofInt_of_le (by omega) (by omega),
          Int32.toInt_ofInt_of_le (by omega) (by omega)]
        omega

/-- The layers of a server have zoom levels that the module supports. -/
theorem Configured.supported (h : Configured scfg) :
  ∀ c ∈ scfg.configs, Supported c
  := by
  induction h with
  | server => simp
  | tileDir dir _ ih => apply ih
  | addTileMimeConfig baseuri name fileExtension _ ih =>
      have hzooms : 0 ≤ (0 : Int32).toInt ∧ (Int32.ofNat maxZoom).toInt ≤ maxZoomServer := by
        decide
      rw [ServerConf.addTileMimeConfig]
      split
      apply supported_push ih
      apply hzooms
  | addTileConfig _ hconf ih => apply supported_addTileConfig ih hconf
  | loadTileConfig _ hconf ih => apply supported_loadTileConfig ih hconf
  | merge _ _ ih ih' =>
      intro c hc
      rcases List.mem_append.mp hc with hc | hc
      · apply ih c hc
      · apply ih' c hc

/-- The path of a map is the path of its layer, unless it has no room for a slash at its end. -/
theorem normalizeBaseuri_spec (hlen : uri.length ≤ pathMax)
    (hlast : uri.getLast? = some 47 ∨ uri.length = pathMax) :
  normalizeBaseuri uri = uri ∨ normalizeBaseuri uri = uri ++ [47] ∧ uri.length = pathMax
  := by
  have hne : uri ≠ [] := by
    rintro rfl
    simp [pathMax] at hlast
  rw [normalizeBaseuri, if_neg hne, List.take_of_length_le hlen]
  split_ifs with hslash
  · right
    exact ⟨rfl, hlast.resolve_left hslash⟩
  · left
    rfl

end TileModule
