import ModTile.GenTile
import ModTile.SubmitQueue
import ModTile.TileModule.Translate

/-!
# The names of maps

The name of a map on its way from the configuration file to the rendering threads.  The render
daemon keeps the first 41 bytes of the name of a section, and so does the Apache module.  The
array for the name in a request has 41 bytes as well: the module puts at most 40 bytes of the
name and a zero byte there, and the submitting programs copy at most 40 bytes, with no zero
byte after them if the name has that many.

So a name of up to 39 bytes always arrives.  A name of 40 bytes arrives from the module, but
from the submitting programs only if the last byte of the memory for the request happens to be
zero, and a longer name never arrives.
-/

namespace MapNames

open RenderdConfig TileModule SubmitQueue

/-- What is met when a rendering thread sets up a map: whether the storage backend and the style
can be loaded, and the reference system of the style. -/
structure SetupOutcome where
  store : Bool
  loaded : Bool
  srs : List UInt8

/-- The maps that a rendering thread sets up. -/
def renderThreadMaps (o : ℕ → SetupOutcome) (maps : List XmlConfigItem) : List XmlMapConfig :=
  maps.mapIdx fun i m => {
    xmlname := m.xmlname.take pathMax
    minzoom := m.minZoom
    maxzoom := m.maxZoom
    ok := (o i).store && (o i).loaded
    prj := getProjection (o i).srs }

/-- The name in the request ends within its array, and of the maps of a rendering thread it is
the name of the one with the number `k` alone. -/
def Delivered (maps : List XmlMapConfig) (k : ℕ) (req : Protocol) : Prop :=
  0 ∈ req.xmlname.toList ∧
    ∀ j map, maps[j]? = some map → (map.xmlname = req.xmlnameString ↔ j = k)

variable {ini : List IniSection} {configFileName tileDir : List UInt8} {numThreads : ℤ}
  {maps : List XmlConfigItem} {o : ℕ → SetupOutcome} {sec : IniSection} {k : ℕ}
  {req : Protocol} {scfg conf : ServerConf}

/-- The name of a map of a rendering thread is that of its section, cut to 41 bytes. -/
theorem xmlname_renderThreadMaps
    (hmaps : processMapSections ini configFileName tileDir numThreads = .ok maps) :
  ((renderThreadMaps o maps)[k]?).map XmlMapConfig.xmlname =
    ((ini.filter isMapSection)[k]?).map fun sec => sec.name.take xmlconfigMax
  := by
  have hname := congrArg (·[k]?) (processMapSections_xmlname hmaps)
  simp only [List.getElem?_map] at hname
  rw [renderThreadMaps, List.getElem?_mapIdx, Option.map_map]
  cases hsec : (ini.filter isMapSection)[k]? with
  | none =>
      rw [hsec, Option.map_none, Option.map_eq_none_iff] at hname
      rw [hname]
      rfl
  | some sec =>
      rw [hsec, Option.map_some] at hname
      obtain ⟨m, hm, hxmlname⟩ := Option.map_eq_some_iff.mp hname
      rw [hm]
      have hle : (copyString sec.name xmlconfigMax).length ≤ pathMax :=
        (List.length_take_le _ _).trans (by decide)
      simp only [Option.map_some, Function.comp_apply, hxmlname, List.take_of_length_le hle]
      rfl

/-- A request arrives exactly when the name in it is terminated and is the name of the section. -/
theorem delivered_iff
    (hmaps : processMapSections ini configFileName tileDir numThreads = .ok maps)
    (hnodup : (ini.map IniSection.name).Nodup)
    (hsec : (ini.filter isMapSection)[k]? = some sec) :
  Delivered (renderThreadMaps o maps) k req ↔
    0 ∈ req.xmlname.toList ∧ req.xmlnameString = sec.name
  := by
  apply and_congr_right
  intro hzero
  have hlen : req.xmlnameString.length < xmlconfigMax := by
    rw [← req.xmlname.toList_length]
    apply Bytes.length_cString_append_lt hzero
  constructor
  · intro h
    have hname := xmlname_renderThreadMaps (o := o) (k := k) hmaps
    rw [hsec, Option.map_some] at hname
    obtain ⟨map, hmap, hxmlname⟩ := Option.map_eq_some_iff.mp hname
    have heq : sec.name.take xmlconfigMax = req.xmlnameString := by
      rw [← hxmlname]
      apply (h k map hmap).mpr rfl
    rw [← heq, List.length_take] at hlen
    rw [← heq, List.take_of_length_le]
    omega
  · intro heq j map hmap
    rw [heq] at hlen ⊢
    have hname := xmlname_renderThreadMaps (o := o) (k := j) hmaps
    rw [hmap, Option.map_some] at hname
    obtain ⟨sec', hsec', hxmlname⟩ := Option.map_eq_some_iff.mp hname.symm
    rw [← hxmlname]
    constructor
    · intro htake
      have hname' : sec'.name = sec.name := by
        rw [← htake, List.length_take] at hlen
        rw [← htake, List.take_of_length_le]
        omega
      have hnodup' : ((ini.filter isMapSection).map IniSection.name).Nodup :=
        hnodup.sublist (List.filter_sublist.map _)
      have hj : j < ((ini.filter isMapSection).map IniSection.name).length := by
        rw [List.length_map]
        apply (List.getElem?_eq_some_iff.mp hsec').1
      apply (List.getElem?_inj hj hnodup').mp
      rw [List.getElem?_map, List.getElem?_map, hsec, hsec', Option.map_some, Option.map_some,
        hname']
    · rintro rfl
      obtain rfl := Option.some.inj (hsec.symm.trans hsec')
      apply List.take_of_length_le hlen.le

/-! ### Requests of the module -/

/-- The name in a command of the module is terminated, and has the first 40 bytes of the name
of the layer. -/
theorem xmlname_tileCommand {config : TileConfigRec} (path : TilePath)
    (hzero : 0 ∉ config.xmlname) :
  0 ∈ (tileCommand config path).xmlname.toList ∧
    (tileCommand config path).xmlnameString = config.xmlname.take 40
  := by
  constructor
  · apply Bytes.zero_mem_storeString
  · apply Bytes.cString_storeString_take hzero

/-- The layer for a map has the name of its section, cut to 41 bytes. -/
theorem xmlname_layer {config : TileConfigRec}
    (hload : scfg.loadTileConfig configFileName (some ini) = .ok conf)
    (hsec : (ini.filter isMapSection)[k]? = some sec)
    (hconfig : conf.configs[scfg.configs.length + k]? = some config) :
  config.xmlname = sec.name.take xmlconfigMax
  := by
  obtain ⟨maps, hmaps, hconfigs⟩ := loadTileConfig_spec hload
  have hname := congrArg (·[k]?) (processMapSections_xmlname hmaps)
  simp only [List.getElem?_map, hsec, Option.map_some] at hname
  obtain ⟨m, hm, hxmlname⟩ := Option.map_eq_some_iff.mp hname
  rw [hconfigs, List.getElem?_append_right (Nat.le_add_right _ _), Nat.add_sub_cancel_left,
    List.getElem?_map, hm] at hconfig
  obtain rfl := Option.some.inj hconfig
  have hle : m.xmlname.length ≤ pathMax := by
    rw [hxmlname]
    apply (List.length_take_le _ _).trans (by decide)
  rw [← copyString, ← hxmlname]
  apply List.take_of_length_le hle

/-! ### Requests of the submitting programs -/

section Fetch

variable {old : Protocol} {e : QItem}

/-- A name of up to 39 bytes is copied. -/
theorem xmlname_fetchCommand_short (hzero : 0 ∉ e.mapname) (hlen : e.mapname.length < 40) :
  0 ∈ (fetchCommand old e).xmlname.toList ∧ (fetchCommand old e).xmlnameString = e.mapname
  := by
  constructor
  · apply Bytes.zero_mem_strncpy hlen
  · apply Bytes.cString_strncpy hzero hlen

/-- Of a longer name the first 40 bytes are copied, and they are terminated when the last byte
of the array was zero. -/
theorem xmlname_fetchCommand_long (hzero : 0 ∉ e.mapname) (hlen : 40 ≤ e.mapname.length) :
  0 ∈ (fetchCommand old e).xmlname.toList ↔ old.xmlname.toList.drop 40 = [0]
  := by
  have hlast : (old.xmlname.toList.drop 40).length = 1 := by
    rw [List.length_drop, old.xmlname.toList_length]
    rfl
  obtain ⟨b, hb⟩ := List.length_eq_one_iff.mp hlast
  have harray : (fetchCommand old e).xmlname.toList =
      e.mapname.take 40 ++ old.xmlname.toList.drop 40 :=
    Bytes.toList_strncpy hlen
  have hnotMem : 0 ∉ e.mapname.take 40 := fun h => hzero (List.mem_of_mem_take h)
  rw [harray, hb, List.mem_append, or_iff_right hnotMem, List.mem_singleton,
    List.singleton_inj, eq_comm]

/-- The string in an array that is terminated in its last byte. -/
theorem xmlnameString_fetchCommand_long (hzero : 0 ∉ e.mapname) (hlen : 40 ≤ e.mapname.length)
    (hlast : old.xmlname.toList.drop 40 = [0]) :
  (fetchCommand old e).xmlnameString = e.mapname.take 40
  := by
  have harray : (fetchCommand old e).xmlname.toList =
      e.mapname.take 40 ++ old.xmlname.toList.drop 40 :=
    Bytes.toList_strncpy hlen
  rw [Protocol.xmlnameString, harray, hlast, List.append_assoc]
  apply Bytes.cString_append_zero
  intro h
  apply hzero (List.mem_of_mem_take h)

/-- The name in a command of a submitting program is terminated and complete when it has at
most 39 bytes, and when it has 40 and the byte after them was zero. -/
theorem xmlname_fetchCommand
    (hname : e.mapname = sec.name ∨ e.mapname = sec.name.take xmlconfigMax) :
  0 ∈ (fetchCommand old e).xmlname.toList ∧ (fetchCommand old e).xmlnameString = sec.name ↔
    sec.name.length < 40 ∨ sec.name.length = 40 ∧ old.xmlname.toList.drop 40 = [0]
  := by
  have hzero : 0 ∉ e.mapname := by
    rcases hname with h | h
    · rw [h]
      apply sec.name_nonzero
    · rw [h]
      exact fun hmem => sec.name_nonzero (List.mem_of_mem_take hmem)
  have htake : e.mapname.take 40 = sec.name.take 40 := by
    rcases hname with h | h
    · rw [h]
    · rw [h, List.take_take]
      rfl
  have hlength : min 40 e.mapname.length = min 40 sec.name.length := by
    rw [← List.length_take, ← List.length_take, htake]
  rcases Nat.lt_or_ge e.mapname.length 40 with hlen | hlen
  · have heq : e.mapname = sec.name := by
      rw [← List.take_of_length_le hlen.le, htake, List.take_of_length_le]
      omega
    apply iff_of_true
    · rw [← heq]
      apply xmlname_fetchCommand_short hzero hlen
    · left
      omega
  · rw [xmlname_fetchCommand_long hzero hlen]
    constructor
    · rintro ⟨hlast, hstring⟩
      right
      rw [xmlnameString_fetchCommand_long hzero hlen hlast, htake] at hstring
      have hle := congrArg List.length hstring
      rw [List.length_take] at hle
      exact ⟨by omega, hlast⟩
    · rintro (hlt | ⟨h40, hlast⟩)
      · omega
      · use hlast
        rw [xmlnameString_fetchCommand_long hzero hlen hlast, htake,
          List.take_of_length_le h40.le]

end Fetch

/-! ### The names that arrive -/

/-- A request of the module for a map arrives exactly when the name of the map has at most 40
bytes, and a request of a submitting program exactly when it has at most 39, or 40 and the
memory for the request has a zero byte in the right place. -/
theorem name_delivered_iff
    (hmaps : processMapSections ini configFileName tileDir numThreads = .ok maps)
    (hload : scfg.loadTileConfig configFileName (some ini) = .ok conf)
    (hnodup : (ini.map IniSection.name).Nodup)
    (hsec : (ini.filter isMapSection)[k]? = some sec) (o : ℕ → SetupOutcome) :
  (∀ locals out uri userdata t rdata cmd,
      tileTranslate locals out conf.configs uri userdata = some t → t.rdata = some rdata →
      rdata.layerNumber = scfg.configs.length + k → rdata.cmd = some cmd →
      (Delivered (renderThreadMaps o maps) k cmd ↔ sec.name.length ≤ 40)) ∧
    ∀ old e, e.mapname = sec.name ∨ e.mapname = sec.name.take xmlconfigMax →
      (Delivered (renderThreadMaps o maps) k (fetchCommand old e) ↔
        sec.name.length < 40 ∨ sec.name.length = 40 ∧ old.xmlname.toList.drop 40 = [0])
  := by
  constructor
  · intro locals out uri userdata t rdata cmd htranslate hrdata hlayer hcmd
    obtain ⟨config, path, hconfig, rfl⟩ := cmd_tileTranslate htranslate hrdata hcmd
    rw [hlayer] at hconfig
    have hxmlname := xmlname_layer hload hsec hconfig
    have hzero : 0 ∉ config.xmlname := by
      rw [hxmlname]
      exact fun hmem => sec.name_nonzero (List.mem_of_mem_take hmem)
    obtain ⟨hterminated, hstring⟩ := xmlname_tileCommand path hzero
    rw [delivered_iff hmaps hnodup hsec, and_iff_right hterminated, hstring, hxmlname,
      List.take_take, List.take_eq_self_iff]
    rfl
  · intro old e hname
    rw [delivered_iff hmaps hnodup hsec]
    apply xmlname_fetchCommand hname

/-- A map with a name. -/
def sampleFile (name : List UInt8) (h : 0 ∉ name) : List IniSection :=
  [sampleSection name (Bytes.ofString "/osm/") h]

/-- Local arrays that are zero. -/
def sampleLocals : Locals where
  parameters := .replicate _ 0
  option := .replicate _ 0
  extension := .replicate _ 0
  behind := []

/-- The maps of a file, the server that loads it, and a command that the module makes. -/
def sampleCommand (file : List IniSection) :
    Option (List XmlConfigItem × ServerConf × Translation × TileRequestData × Protocol) := do
  let maps ← (processMapSections file [] [] 0).toOption
  let conf ← (sampleServer.loadTileConfig [] (some file)).toOption
  let t ← tileTranslate sampleLocals ⟨some true, true⟩ conf.configs
    (Bytes.ofString "/osm/0/0/0.png") none
  let rdata ← t.rdata
  let cmd ← rdata.cmd
  return (maps, conf, t, rdata, cmd)

/-- The commands of the sample are those of a request to the server. -/
theorem sampleCommand_spec {file : List IniSection} {t : Translation} {rdata : TileRequestData}
    {cmd : Protocol} (h : sampleCommand file = some (maps, conf, t, rdata, cmd)) :
  processMapSections file [] [] 0 = .ok maps ∧
    sampleServer.loadTileConfig [] (some file) = .ok conf ∧
    tileTranslate sampleLocals ⟨some true, true⟩ conf.configs
      (Bytes.ofString "/osm/0/0/0.png") none = some t ∧
    t.rdata = some rdata ∧ rdata.cmd = some cmd
  := by
  simp only [sampleCommand, Option.bind_eq_bind, Option.bind_eq_some_iff, Option.pure_def,
    Option.some.injEq, Prod.mk.injEq] at h
  obtain ⟨maps, hmaps, conf, hconf, t, ht, rdata, hrdata, cmd, hcmd, rfl, rfl, rfl, rfl, rfl⟩ := h
  exact ⟨eq_ok_of_toOption hmaps, eq_ok_of_toOption hconf, ht, hrdata, hcmd⟩

/-- The name `hills` arrives. -/
theorem name_delivered_hills :
  ∃ maps conf t rdata cmd,
    sampleCommand (sampleFile (Bytes.ofString "hills") (by decide)) =
        some (maps, conf, t, rdata, cmd) ∧
      ∀ o, Delivered (renderThreadMaps o maps) 0 cmd ∧
        ∀ old, Delivered (renderThreadMaps o maps) 0
          (fetchCommand old ⟨Bytes.ofString "hills", 0, 0, 0⟩)
  := by
  have hrun : (sampleCommand (sampleFile (Bytes.ofString "hills") (by decide))).map
      (fun r => r.2.2.2.1.layerNumber) = some 0 := by
    decide +kernel
  obtain ⟨⟨maps, conf, t, rdata, cmd⟩, hsample, hlayer⟩ := Option.map_eq_some_iff.mp hrun
  obtain ⟨hmaps, hload, htranslate, hrdata, hcmd⟩ := sampleCommand_spec hsample
  use maps, conf, t, rdata, cmd, hsample
  intro o
  obtain ⟨hmodule, hsubmit⟩ := name_delivered_iff (k := 0) hmaps hload (by decide) rfl o
  constructor
  · apply (hmodule _ _ _ _ t rdata cmd htranslate hrdata hlayer hcmd).mpr
    decide
  · intro old
    apply (hsubmit old _ (Or.inl rfl)).mpr
    left
    decide

/-- Memory in which all bytes of the array for the name are `x`. -/
def sampleMemory : Protocol :=
  { zeroCommand with xmlname := .replicate _ 120 }

/-- A name of 41 bytes does not arrive from the module, and a name of 40 bytes does not arrive
from a submitting program. -/
theorem name_not_delivered :
  (∃ maps conf t rdata cmd,
      sampleCommand (sampleFile (List.replicate 41 97) (by decide)) =
          some (maps, conf, t, rdata, cmd) ∧
        rdata.layerNumber = 0 ∧ ∀ o, ¬ Delivered (renderThreadMaps o maps) 0 cmd) ∧
    ∃ maps, processMapSections (sampleFile (List.replicate 40 97) (by decide)) [] [] 0 = .ok maps ∧
      ∀ o, ¬ Delivered (renderThreadMaps o maps) 0
        (fetchCommand sampleMemory ⟨List.replicate 40 97, 0, 0, 0⟩)
  := by
  constructor
  · have hrun : (sampleCommand (sampleFile (List.replicate 41 97) (by decide))).map
        (fun r => (r.2.2.2.1.layerNumber, r.2.2.2.2.xmlnameString)) =
          some (0, List.replicate 40 97) := by
      decide +kernel
    obtain ⟨⟨maps, conf, t, rdata, cmd⟩, hsample, hresult⟩ := Option.map_eq_some_iff.mp hrun
    obtain ⟨hlayer, hstring⟩ := Prod.mk.inj hresult
    obtain ⟨hmaps, -⟩ := sampleCommand_spec hsample
    use maps, conf, t, rdata, cmd, hsample, hlayer
    intro o h
    obtain ⟨-, hname⟩ := (delivered_iff (k := 0) hmaps (by decide) rfl).mp h
    rw [hstring] at hname
    revert hname
    decide
  · have hrun : (processMapSections (sampleFile (List.replicate 40 97) (by decide))
        [] [] 0).toOption.isSome := by
      decide +kernel
    obtain ⟨maps, hmaps⟩ := Option.isSome_iff_exists.mp hrun
    use maps, eq_ok_of_toOption hmaps
    intro o h
    have hterminated := h.1
    revert hterminated
    decide

end MapNames
