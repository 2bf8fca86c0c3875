import ModTile.TileModule.StorageBackends

/-!
# The translation of request paths

`tile_translate` of `mod_tile.c`, which decides by the path of a request whether the module
handles it, and makes the command for the render daemon.  Two paths are reserved.  Any other
path belongs to the first layer whose path it starts with, and the rest of it names a tile or
the description of the layer.

The arrays on the stack are not initialised.  Their contents when the function is entered are
given by `Locals`.
-/

namespace TileModule

open Store

/-- The version of the protocol. -/
def protoVer : Int32 := 3

/-- The handlers of the module. -/
inductive Handler where
  | tileModStats
  | tileMetrics
  | tileJson
  | tileServe
  | tileStatus
  | tileDirty
  deriving DecidableEq

/-- The name of a handler. -/
def Handler.name : Handler → String
  | tileModStats => "tile_mod_stats"
  | tileMetrics => "tile_metrics"
  | tileJson => "tile_json"
  | tileServe => "tile_serve"
  | tileStatus => "tile_status"
  | tileDirty => "tile_dirty"

/-- The values that the function returns. -/
inductive TranslateStatus where
  | ok (handler : Handler)
  | declined
  | httpNotFound
  | httpInternalServerError
  deriving DecidableEq

/-- `tile_request_data`: what the handler of a request is given. -/
structure TileRequestData where
  cmd : Option Protocol
  store : Option StorageBackend
  layerNumber : ℕ
  deriving DecidableEq

/-- The local arrays, and the memory behind `extension`. -/
structure Locals where
  parameters : XmlconfigArray
  option : List.Vector UInt8 11
  extension : List.Vector UInt8 256
  behind : List UInt8

/-- A command all of whose bytes are zero. -/
def zeroCommand : Protocol where
  ver := 0
  cmd := .cmdIgnore
  x := 0
  y := 0
  z := 0
  xmlname := .replicate _ 0
  mimetype := .replicate _ 0
  options := .replicate _ 0

/-- The number that a text is.  Numbers that do not fit are cut to 32 bits. -/
def safeParseInt (str : List UInt8) : Option Int32 :=
  if str = [] then none
  else
    let (val, endptr) := Bytes.strtol str
    if endptr = [] then some (Int32.ofInt val) else none

/-- The text before the last dot, and the array for the extension, which keeps its content if
there is no dot. -/
def getExtension (filename : List UInt8) (extDest : List.Vector UInt8 256) :
    List UInt8 × List.Vector UInt8 256 :=
  let extension := (filename.reverse.takeWhile (· ≠ 46)).reverse
  if 46 ∈ filename then
    (filename.take (filename.length - extension.length - 1), Bytes.storeString extension extDest)
  else (filename, extDest)

/-- A path of a tile: the command with its coordinates, and the local arrays. -/
structure TilePath where
  cmd : Protocol
  locals : Locals

/-- The path with the given parts. -/
def readCoordinates (locals : Locals) (ver : Int32) (parameters zStr xStr yStr : List UInt8)
    (option : Option (List UInt8)) : Option TilePath := do
  let z ← safeParseInt zStr
  let x ← safeParseInt xStr
  let (yStr, extension) := getExtension yStr locals.extension
  let y ← safeParseInt yStr
  return {
    cmd := { zeroCommand with ver := ver, x := x, y := y, z := z }
    locals := {
      parameters := Bytes.storeString parameters locals.parameters
      option := option.elim locals.option (Bytes.storeString · locals.option)
      extension := extension
      behind := locals.behind } }

/-- The path of a tile in a layer with or without parameters. -/
def readTilePath (locals : Locals) (config : TileConfigRec) (elts : List (List UInt8)) :
    Option TilePath :=
  if config.enableOptions ≠ 0 then
    match elts with
    | parameters :: z :: x :: y :: rest =>
        readCoordinates locals protoVer parameters z x y rest.head?
    | _ => none
  else
    match elts with
    | z :: x :: y :: rest => readCoordinates locals 2 [] z x y rest.head?
    | _ => none

/-- The coordinates are not those of a tile of the layer. -/
def outOfBounds (config : TileConfigRec) (cmd : Protocol) : Bool :=
  if cmd.z < config.minzoom ∨ config.maxzoom < cmd.z then true
  else
    let limit : Int32 := 1 <<< cmd.z
    cmd.x < 0 || limit * config.aspectX - 1 < cmd.x ||
      cmd.y < 0 || limit * config.aspectY - 1 < cmd.y

/-- The handler for a path with the given number of parts. -/
def chooseHandler (config : TileConfigRec) (parts : ℕ) (option : List UInt8) : TranslateStatus :=
  if config.enableOptions ≠ 0 ∧ parts = 5 ∨ config.enableOptions = 0 ∧ parts = 4 then
    if option = Bytes.ofString "status" then .ok .tileStatus
    else if option = Bytes.ofString "dirty" then .ok .tileDirty
    else .declined
  else .ok .tileServe

/-- What the function returns, what the request is given for its handler, and the storage
backends of the thread. -/
structure Translation where
  status : TranslateStatus
  rdata : Option TileRequestData
  userdata : Userdata

/-- The command for a tile of a layer. -/
def tileCommand (config : TileConfigRec) (path : TilePath) : Protocol :=
  { path.cmd with
    xmlname := Bytes.storeString config.xmlname path.cmd.xmlname
    mimetype := Bytes.storeString config.mimeType path.cmd.mimetype
    options := Bytes.storeString (Bytes.cString path.locals.parameters.toList) path.cmd.options }

/-- The translation of the path of a tile with the given number of parts. -/
def translateTile (o : InitOutcome) (configs : List TileConfigRec) (userdata : Userdata) (i : ℕ)
    (config : TileConfigRec) (parts : ℕ) (path : TilePath) : Option Translation :=
  if Bytes.cString (path.locals.extension.toList ++ path.locals.behind) ≠
      config.fileExtension then
    some ⟨.declined, none, userdata⟩
  else if outOfBounds config path.cmd then some ⟨.httpNotFound, none, userdata⟩
  else
    match getStorageBackend o configs i userdata with
    | none => none
    | some (store, stores) =>
        if store.any StorageBackend.hasContext then
          some ⟨chooseHandler config parts (Bytes.cString path.locals.option.toList),
            some ⟨some (tileCommand config path), store, i⟩, some stores⟩
        else some ⟨.httpInternalServerError, none, some stores⟩

/-- The translation of a path that belongs to a layer. -/
def translateLayer (locals : Locals) (o : InitOutcome) (configs : List TileConfigRec)
    (uri : List UInt8) (userdata : Userdata) (i : ℕ) (config : TileConfigRec) :
    Option Translation :=
  let pathInfo := uri.drop config.baseuri.length
  if Bytes.samePrefix 15 pathInfo (Bytes.ofString "tile-layer.json") then
    some ⟨.ok .tileJson, some ⟨none, none, i⟩, userdata⟩
  else
    let elts := Bytes.tokens 47 pathInfo
    match readTilePath locals config elts with
    | none => some ⟨.declined, none, userdata⟩
    | some path => translateTile o configs userdata i config elts.length path

/-- The handler for a reserved path. -/
def reservedHandler (uri : List UInt8) : Option Handler :=
  if Bytes.samePrefix 9 (Bytes.ofString "/mod_tile") uri then some .tileModStats
  else if Bytes.samePrefix 8 (Bytes.ofString "/metrics") uri then some .tileMetrics
  else none

/-- The first layer from the number `i` on to whose path the request belongs. -/
def selectLayer (uri : List UInt8) : ℕ → List TileConfigRec → Option (ℕ × TileConfigRec)
  | _, [] => none
  | i, config :: configs =>
      if Bytes.samePrefix config.baseuri.length config.baseuri uri then some (i, config)
      else selectLayer uri (i + 1) configs

/-- The translation of a path.  There is no result when the storage backend of the layer is
looked up outside of the array of backends. -/
def tileTranslate (locals : Locals) (o : InitOutcome) (configs : List TileConfigRec)
    (uri : List UInt8) (userdata : Userdata) : Option Translation :=
  match reservedHandler uri with
  | some handler => some ⟨.ok handler, none, userdata⟩
  | none =>
      match selectLayer uri 0 configs with
      | none => some ⟨.declined, none, userdata⟩
      | some (i, config) => translateLayer locals o configs uri userdata i config

/-! ### The layer of a path -/

variable {uri : List UInt8} {configs : List TileConfigRec} {config : TileConfigRec} {i k : ℕ}

/-- The layer that is selected is the first one to whose path the request belongs. -/
theorem selectLayer_eq_some (h : selectLayer uri k configs = some (i, config)) :
  ∃ j, i = k + j ∧ configs[j]? = some config ∧ config.baseuri <+: uri ∧
    ∀ j' < j, ∀ config', configs[j']? = some config' → ¬ config'.baseuri <+: uri
  := by
  induction configs generalizing k with
  | nil => contradiction
  | cons first configs ih =>
      rw [selectLayer] at h
      split_ifs at h with hpath
      · obtain ⟨rfl, rfl⟩ := Prod.mk.inj (Option.some.inj h)
        exact ⟨0, rfl, rfl, Bytes.samePrefix_length.mp hpath, by simp⟩
      · obtain ⟨j, rfl, hj, hconfig, hbefore⟩ := ih h
        refine ⟨j + 1, by omega, hj, hconfig, ?_⟩
        intro j' hj' config' hconfig'
        cases j' with
        | zero =>
            obtain rfl := Option.some.inj hconfig'
            rw [← Bytes.samePrefix_length]
            apply hpath
        | succ j' => apply hbefore j' (by omega) config' hconfig'

/-- A layer is selected when the request belongs to the path of one. -/
theorem isSome_selectLayer :
  (selectLayer uri k configs).isSome ↔ ∃ config ∈ configs, config.baseuri <+: uri
  := by
  induction configs generalizing k with
  | nil => simp [selectLayer]
  | cons first configs ih =>
      rw [selectLayer, List.exists_mem_cons_iff, ← Bytes.samePrefix_length]
      split_ifs with hpath
      · simp [hpath]
      · simp [hpath, ih]

/-- The path of an earlier map is longer than that of a later one to which a request belongs
as well. -/
theorem length_baseuri_lt {u u' : List UInt8} (hlen : u.length ≤ pathMax)
    (hlast : u.getLast? = some 47 ∨ u.length = pathMax) (hlen' : u'.length ≤ pathMax)
    (hlast' : u'.getLast? = some 47 ∨ u'.length = pathMax) (hparent : ¬ u <+: u')
    (huri : normalizeBaseuri u <+: uri) (huri' : normalizeBaseuri u' <+: uri) :
  (normalizeBaseuri u').length < (normalizeBaseuri u).length
  := by
  by_contra hle
  apply hparent
  have hbase : normalizeBaseuri u <+: normalizeBaseuri u' :=
    List.prefix_of_prefix_length_le huri huri' (Nat.le_of_not_lt hle)
  have hpath : u <+: normalizeBaseuri u' := by
    rcases normalizeBaseuri_spec hlen hlast with h | ⟨h, -⟩
    · rw [h] at hbase
      apply hbase
    · rw [h] at hbase
      apply (List.prefix_append u [47]).trans hbase
  rcases normalizeBaseuri_spec hlen' hlast' with h | ⟨h, hmax⟩
  · rw [h] at hpath
    apply hpath
  · rw [h] at hpath
    apply List.prefix_of_prefix_length_le hpath (List.prefix_append u' [47])
    rw [hmax]
    apply hlen

/-! ### The command for a tile -/

section Command

variable {locals : Locals} {o : InitOutcome} {userdata : Userdata} {t : Translation}
  {rdata : TileRequestData} {cmd : Protocol} {parts : ℕ} {path : TilePath}

/-- What the handler is given for the path of a tile. -/
theorem rdata_translateTile (h : translateTile o configs userdata i config parts path = some t)
    (hrdata : t.rdata = some rdata) :
  rdata.layerNumber = i ∧ rdata.cmd = some (tileCommand config path)
  := by
  rw [translateTile] at h
  split_ifs at h
  · obtain rfl := Option.some.inj h
    contradiction
  · obtain rfl := Option.some.inj h
    contradiction
  · split at h
    · contradiction
    · split_ifs at h
      · obtain rfl := Option.some.inj h
        obtain rfl := Option.some.inj hrdata
        exact ⟨rfl, rfl⟩
      · obtain rfl := Option.some.inj h
        contradiction

/-- A command is one for a tile of the layer. -/
theorem cmd_translateLayer
    (h : translateLayer locals o configs uri userdata i config = some t)
    (hrdata : t.rdata = some rdata) (hcmd : rdata.cmd = some cmd) :
  rdata.layerNumber = i ∧ ∃ path, cmd = tileCommand config path
  := by
  rw [translateLayer] at h
  split_ifs at h
  · obtain rfl := Option.some.inj h
    obtain rfl := Option.some.inj hrdata
    contradiction
  · dsimp only at h
    split at h
    · obtain rfl := Option.some.inj h
      contradiction
    · obtain ⟨hlayer, hcmd'⟩ := rdata_translateTile h hrdata
      exact ⟨hlayer, _, Option.some.inj (hcmd.symm.trans hcmd')⟩

/-- A command that is made for a request is one for a tile of the layer of the request. -/
theorem cmd_tileTranslate (h : tileTranslate locals o configs uri userdata = some t)
    (hrdata : t.rdata = some rdata) (hcmd : rdata.cmd = some cmd) :
  ∃ config path, configs[rdata.layerNumber]? = some config ∧ cmd = tileCommand config path
  := by
  rw [tileTranslate] at h
  split at h
  · obtain rfl := Option.some.inj h
    contradiction
  · split at h
    · obtain rfl := Option.some.inj h
      contradiction
    · rename_i i config hselect
      obtain ⟨j, hij, hj, -⟩ := selectLayer_eq_some hselect
      obtain ⟨hlayer, path, hpath⟩ := cmd_translateLayer h hrdata hcmd
      refine ⟨config, path, ?_, hpath⟩
      rw [hlayer, hij, Nat.zero_add]
      apply hj

end Command

/-! ### The layers of a configuration file -/

open RenderdConfig in
/-- The path of an earlier layer of a configuration file is longer than that of a later one to
which a request belongs as well. -/
theorem pairwise_baseuri {scfg conf : ServerConf} {configFileName : List UInt8}
    {ini : List IniSection} (h : scfg.loadTileConfig configFileName (some ini) = .ok conf)
    (hempty : scfg.configs = []) :
  conf.configs.Pairwise fun config config' =>
    config.baseuri <+: uri → config'.baseuri <+: uri →
      config'.baseuri.length < config.baseuri.length
  := by
  obtain ⟨maps, hmaps, hconfigs⟩ := loadTileConfig_spec h
  rw [hconfigs, hempty, List.nil_append, List.pairwise_map]
  apply List.Pairwise.imp_of_mem _ (processMapSections_spec hmaps).2
  intro m m' hm hm' hparent
  obtain ⟨hlen, hlast⟩ := processMapSections_xmluri hmaps m hm
  obtain ⟨hlen', hlast'⟩ := processMapSections_xmluri hmaps m' hm'
  apply length_baseuri_lt hlen hlast hlen' hlast'
  rw [← isParent_iff hlen, hparent]
  apply Bool.false_ne_true

open RenderdConfig in
/-- For the layers of a configuration file, a path that is not reserved is translated for the
layer that has the longest of the paths to which the request belongs, if there is one. -/
theorem longest_path_selected {scfg conf : ServerConf} {configFileName : List UInt8}
    {ini : List IniSection} (h : scfg.loadTileConfig configFileName (some ini) = .ok conf)
    (hempty : scfg.configs = []) (hstats : ¬ Bytes.ofString "/mod_tile" <+: uri)
    (hmetrics : ¬ Bytes.ofString "/metrics" <+: uri) :
  (∀ locals o userdata, tileTranslate locals o conf.configs uri userdata =
      match selectLayer uri 0 conf.configs with
      | none => some ⟨.declined, none, userdata⟩
      | some (i, config) => translateLayer locals o conf.configs uri userdata i config) ∧
    ((selectLayer uri 0 conf.configs).isSome ↔
      ∃ config ∈ conf.configs, config.baseuri <+: uri) ∧
    ∀ i config, selectLayer uri 0 conf.configs = some (i, config) →
      conf.configs[i]? = some config ∧ config.baseuri <+: uri ∧
        ∀ j config', conf.configs[j]? = some config' → config'.baseuri <+: uri → j ≠ i →
          config'.baseuri.length < config.baseuri.length
  := by
  refine ⟨?_, isSome_selectLayer, ?_⟩
  · intro locals o userdata
    have hreserved : reservedHandler uri = none := by
      rw [reservedHandler, if_neg, if_neg]
      · rw [← Bytes.samePrefix_length] at hmetrics
        apply hmetrics
      · rw [← Bytes.samePrefix_length] at hstats
        apply hstats
    rw [tileTranslate, hreserved]
  · intro i config hselect
    obtain ⟨j, rfl, hj, hconfig, hbefore⟩ := selectLayer_eq_some hselect
    rw [Nat.zero_add]
    refine ⟨hj, hconfig, ?_⟩
    intro j' config' hj' hconfig' hne
    have hlt : j < j' := by
      apply Nat.lt_of_le_of_ne _ hne.symm
      by_contra hlt
      apply hbefore j' (Nat.lt_of_not_le hlt) config' hj' hconfig'
    obtain ⟨hlen, rfl⟩ := List.getElem?_eq_some_iff.mp hj
    obtain ⟨hlen', rfl⟩ := List.getElem?_eq_some_iff.mp hj'
    apply List.pairwise_iff_getElem.mp (pairwise_baseuri h hempty) j j' hlen hlen' hlt
      hconfig hconfig'

open RenderdConfig in
/-- A section with a name and a path. -/
def sampleSection (name uri : List UInt8) (h : 0 ∉ name) : IniSection where
  name := name
  getstring := fun key => if key = "uri" then some uri else none
  getint := fun _ => none
  getdouble := fun _ => none
  name_nonzero := h

/-- A server without layers. -/
def sampleServer : ServerConf where
  configs := []
  tileDir := Bytes.ofString "/tiles"
  serverHostname := none

theorem zero_notMem_hills :
  0 ∉ Bytes.ofString "hills"
  := by
  decide

theorem zero_notMem_osm :
  0 ∉ Bytes.ofString "osm"
  := by
  decide

/-- Two maps, of which the second has the path that is the parent of the first. -/
def sampleFile : List RenderdConfig.IniSection :=
  [sampleSection (Bytes.ofString "hills") (Bytes.ofString "/osm/hills/") zero_notMem_hills,
    sampleSection (Bytes.ofString "osm") (Bytes.ofString "/osm") zero_notMem_osm]

/-- A path to which both layers belong is translated for the first one. -/
theorem longest_path_selected_sampleFile :
  ∃ conf config, sampleServer.loadTileConfig [] (some sampleFile) = .ok conf ∧
    selectLayer (Bytes.ofString "/osm/hills/0/0/0.png") 0 conf.configs = some (0, config) ∧
    ∀ j config', conf.configs[j]? = some config' →
      config'.baseuri <+: Bytes.ofString "/osm/hills/0/0/0.png" → j ≠ 0 →
      config'.baseuri.length < config.baseuri.length
  := by
  have hrun : (sampleServer.loadTileConfig [] (some sampleFile)).toOption.bind (fun conf =>
      (selectLayer (Bytes.ofString "/osm/hills/0/0/0.png") 0 conf.configs).map Prod.fst) =
        some 0 := by
    decide +kernel
  obtain ⟨conf, hconf, hselect⟩ := Option.bind_eq_some_iff.mp hrun
  obtain ⟨⟨-, config⟩, hselect, rfl⟩ := Option.map_eq_some_iff.mp hselect
  have hload := RenderdConfig.eq_ok_of_toOption hconf
  have hstats : ¬ Bytes.ofString "/mod_tile" <+: Bytes.ofString "/osm/hills/0/0/0.png" := by
    decide
  have hmetrics : ¬ Bytes.ofString "/metrics" <+: Bytes.ofString "/osm/hills/0/0/0.png" := by
    decide
  obtain ⟨-, -, hlongest⟩ := longest_path_selected hload rfl hstats hmetrics
  exact ⟨conf, config, hload, hselect, (hlongest 0 config hselect).2.2⟩

/-- Local arrays that are zero. -/
def zeroLocals : Locals where
  parameters := .replicate _ 0
  option := .replicate _ 0
  extension := .replicate _ 0
  behind := []

/-- The server that loads a file, and the translation of a path. -/
def sampleTranslation (file : List RenderdConfig.IniSection) (uri : List UInt8) :
    Option (ServerConf × Translation) := do
  let conf ← (sampleServer.loadTileConfig [] (some file)).toOption
  let t ← tileTranslate zeroLocals ⟨some true, true⟩ conf.configs uri none
  return (conf, t)

theorem sampleTranslation_spec {file : List RenderdConfig.IniSection} {conf : ServerConf}
    {t : Translation} (h : sampleTranslation file uri = some (conf, t)) :
  Configured conf ∧ tileTranslate zeroLocals ⟨some true, true⟩ conf.configs uri none = some t
  := by
  obtain ⟨conf', hconf, h⟩ := Option.bind_eq_some_iff.mp h
  obtain ⟨t', ht, h⟩ := Option.bind_eq_some_iff.mp h
  obtain ⟨rfl, rfl⟩ := Prod.mk.inj (Option.some.inj h)
  have hload := RenderdConfig.eq_ok_of_toOption hconf
  exact ⟨.loadTileConfig (.server _ _) hload, ht⟩

end TileModule
