import ModTile.MapNames
import ModTile.TileModule.Serve

/-!
# From the path of a request to the tile

A request for a tile of a layer with a file store, from its path to the response.  While it is
dealt with, metatiles are rendered, expired and deleted by others, and the data are imported.  The
module looks at the store up to three times: before and after it has asked for a rendering, and when
it reads the tile.

What is sent is the tile that the path names, from the metatile that has been saved last when the
store is read.  A tile that is in the store is sent whatever the render daemon does, and may be
cached for a short time only if it is older than the last import.
-/

open Transition
open StoreFile (FileStore Plain SavedTile ReadOutcome fileTileStat fileTileRead planetPath)
open StoreFileUtils (ValidName ValidTile Fits)
open StoreMemcached (tileKey)

namespace TileModule

/-- A request for a tile, with the store when the hook looks at it, when the hook looks at it again
after the rendering, and when the handler reads it, the times of the clock, and everything else that
is met. -/
structure Visit where
  conf : ServeConf
  rounding : FloatRounding
  requestTime : ℤ
  allowed : Bool
  load : DelayPool.Double
  rendered : Bool
  atHook : FileStore
  atRender : FileStore
  atRead : FileStore
  now : ℤ
  nowAfter : ℤ
  outcome : ReadOutcome
  cors : CorsRequest
  acceptEncoding : Option (List UInt8)
  hostname : List UInt8
  allocated : Bool
  rand : Random
  duration : UInt64
  md5 : List UInt8 → List UInt8
  conditions : Conditions

namespace Visit

/-- What the hook meets. -/
def hookEvents (v : Visit) (tileDir : List UInt8) (cmd : Protocol) : HookEvents where
  stat := fileTileStat tileDir v.atHook.disk cmd.xmlnameString cmd.optionsString cmd.x cmd.y cmd.z
    v.now
  allowed := v.allowed
  load := v.load
  rendered := v.rendered
  statAfter := fileTileStat tileDir v.atRender.disk cmd.xmlnameString cmd.optionsString cmd.x cmd.y
    cmd.z v.nowAfter

/-- What the handler meets. -/
def serveEvents (v : Visit) (tileDir : List UInt8) (cmd : Protocol) : ServeEvents :=
  let read := fileTileRead tileDir v.atRead.disk.files cmd.xmlnameString cmd.optionsString cmd.x
    cmd.y cmd.z maxSize v.outcome
  { cors := v.cors
    acceptEncoding := v.acceptEncoding
    hostname := v.hostname
    allocated := v.allocated
    read := read
    rand := v.rand
    duration := v.duration
    md5 := v.md5 (read.buf.take read.ret.toNat)
    conditions := v.conditions }

/-- The response, where the directory is that of the storage backend. -/
def response (v : Visit) (config : TileConfigRec) (rdata : TileRequestData) : Option Response :=
  match rdata.cmd, rdata.store with
  | some cmd, some ⟨.file, tileDir⟩ =>
      respond v.rounding v.conf config rdata v.requestTime (v.hookEvents tileDir cmd)
        (v.serveEvents tileDir cmd)
  | _, _ => none

/-- The store is used by any calls before the request and during it. -/
structure Run (v : Visit) (tileDir : List UInt8) : Prop where
  hook : Reach (FileStore.step tileDir) (Plain tileDir) FileStore.init v.atHook
  render : Reach (FileStore.step tileDir) (Plain tileDir) v.atHook v.atRender
  read : Reach (FileStore.step tileDir) (Plain tileDir) v.atRender v.atRead

end Visit

/-- A layer of a square map with a name and zoom levels of which metatiles have paths. -/
structure SquareLayer (config : TileConfigRec) : Prop where
  name : ValidName config.xmlname
  zero_notMem : 0 ∉ config.xmlname
  aspectX : config.aspectX = 1
  aspectY : config.aspectY = 1
  maxzoom_le : config.maxzoom.toInt ≤ maxZoom

/-- The command is for the tile with the given coordinates in the map of the layer. -/
structure IsRequest (config : TileConfigRec) (cmd : Protocol) (z x y : ℤ) : Prop where
  xmlname : cmd.xmlnameString = config.xmlname
  z_eq : cmd.z.toInt = z
  x_eq : cmd.x.toInt = x
  y_eq : cmd.y.toInt = y
  tile : ValidTile cmd.x cmd.y cmd.z
  zoom_le : cmd.z ≤ config.maxzoom

/-! ### The tile of a path -/

variable {scfg : ServerConf} {locals : Locals} {o : Store.InitOutcome} {uri : List UInt8}
  {userdata userdata' : Userdata} {rdata : TileRequestData} {config : TileConfigRec}
  {cmd : Protocol} {tileDir : List UInt8} {v : Visit} {r : Response} {z x y : ℤ}

/-- A path that is accepted is for the tile that it names. -/
theorem isRequest_of_tileTranslate (hscfg : Configured scfg)
    (h : tileTranslate locals o scfg.configs uri userdata =
      some ⟨.ok .tileServe, some rdata, userdata'⟩)
    (hconfig : scfg.configs[rdata.layerNumber]? = some config) (hlayer : SquareLayer config)
    (hcoordinates : coordinates config uri = some (z, x, y)) (hz : FitsInt z) (hx : FitsInt x)
    (hy : FitsInt y) :
  ∃ cmd, rdata.cmd = some cmd ∧ IsRequest config cmd z x y
  := by
  obtain ⟨i, config', hselect, htranslate⟩ := tileTranslate_of_ok h rfl rfl
  obtain ⟨path, store, hpath, hbounds, hrdata⟩ := translateLayer_of_ok htranslate rfl rfl
  obtain ⟨j, hj, hconfig', -⟩ := selectLayer_eq_some hselect
  obtain rfl := Option.some.inj hrdata
  rw [hj, Nat.zero_add, hconfig'] at hconfig
  obtain rfl := Option.some.inj hconfig
  obtain ⟨z', x', y', hcoordinates', hz', hx', hy'⟩ := readTilePath_spec hpath
  rw [hcoordinates] at hcoordinates'
  obtain ⟨rfl, rfl, rfl⟩ : z = z' ∧ x = x' ∧ y = y' := by simpa using hcoordinates'
  have hsupported := hscfg.supported config' (List.mem_of_getElem? hconfig')
  have hone : (1 : Int32).toInt = 1 := rfl
  have htile := bounds_of_outOfBounds hsupported (by rw [hlayer.aspectX, hone]; omega)
    (by rw [hlayer.aspectY, hone]; omega) hbounds
  have hxlt := htile.x_lt
  have hylt := htile.y_lt
  rw [hlayer.aspectX, hone, one_mul] at hxlt
  rw [hlayer.aspectY, hone, one_mul] at hylt
  refine ⟨tileCommand config' path, rfl, ?_⟩
  constructor
  case xmlname =>
    rw [(MapNames.xmlname_tileCommand path hlayer.zero_notMem).2]
    exact List.take_of_length_le hlayer.name.length_le
  case z_eq => exact (congrArg Int32.toInt hz').trans (toInt_kept_iff.mpr hz)
  case x_eq => exact (congrArg Int32.toInt hx').trans (toInt_kept_iff.mpr hx)
  case y_eq => exact (congrArg Int32.toInt hy').trans (toInt_kept_iff.mpr hy)
  case tile =>
    constructor
    case zoom_nonneg => exact hsupported.1.trans htile.minzoom_le
    case zoom_le => exact htile.le_maxzoom.trans hlayer.maxzoom_le
    case x_nonneg => exact htile.x_nonneg
    case x_lt => exact hxlt
    case y_nonneg => exact htile.y_nonneg
    case y_lt => exact hylt
  case zoom_le => exact Int32.le_iff_toInt_le.mpr htile.le_maxzoom

/-! ### How long a tile may be cached -/

variable {p : FloatRounding} {rand : Random} {conf : ServeConf} {maxzoom zoom : Int32}
  {hostname : List UInt8} {requestTime mtime maxAge : ℤ} {state : TileState}

/-- The part that is added by chance is at most the whole. -/
theorem holdoff_bounds {n : ℤ} (hn : 0 ≤ n) (hle : n ≤ 2 ^ 53) :
  0 ≤ holdoff p (n / 2) rand ∧ 2 * holdoff p (n / 2) rand ≤ n
  := by
  have hn' : (0 : ℚ) ≤ n := by exact_mod_cast hn
  have hrand : (0 : ℚ) ≤ rand.val / 2 ^ 31 := by positivity
  have hrand' : (rand.val : ℚ) / 2 ^ 31 ≤ 1 := by
    rw [div_le_one (by positivity)]
    exact_mod_cast rand.isLt.le
  have hround : p.round (n / 2) = n / 2 := by
    apply p.round_half
    rwa [abs_of_nonneg hn]
  have hlow : 0 ≤ p.round (n / 2 * (rand.val / 2 ^ 31)) := by
    apply p.round_nonneg
    positivity
  have hhigh : p.round (n / 2 * (rand.val / 2 ^ 31)) ≤ n / 2 := by
    rw [← hround]
    apply p.mono
    rw [hround]
    apply mul_le_of_le_one_right (by positivity) hrand'
  rw [holdoff, FloatRounding.truncate, if_pos hlow]
  constructor
  · exact Int.floor_nonneg.mpr hlow
  · have hfloor := (Int.floor_le _).trans hhigh
    have htwice : (2 * ⌊p.round (n / 2 * (rand.val / 2 ^ 31))⌋ : ℚ) ≤ n := by linarith
    exact_mod_cast htwice

/-- The host name is not the one for extended caching. -/
def NotExtended (conf : ServeConf) (hostname : List UInt8) : Prop :=
  conf.cacheExtendedHostname = [] ∨
    Bytes.splitFirst conf.cacheExtendedHostname hostname = none

/-- For how long a tile may be cached: for as long as a dirty tile, and at most half as long again,
if it is outdated, and otherwise for at least as long as any tile of the zoom level; but never for
longer than the greatest time. -/
structure Lifetime (conf : ServeConf) (zoom : Int32) (outdated : Prop) (maxAge : ℤ) : Prop where
  le_max : maxAge ≤ conf.cacheDurationMax
  dirty : outdated → min conf.cacheDurationDirty conf.cacheDurationMax ≤ maxAge ∧
    2 * maxAge ≤ 3 * conf.cacheDurationDirty
  current : ¬outdated →
    min (conf.mincachetime zoom.toInt.toNat) conf.cacheDurationMax ≤ maxAge

theorem lifetime_of_addExpiry
    (h : addExpiry p conf maxzoom zoom hostname requestTime mtime state rand = some maxAge)
    (hhost : NotExtended conf hostname) (hzoom : zoom ≤ maxzoom)
    (hdirty : 0 ≤ conf.cacheDurationDirty) (hdirty' : conf.cacheDurationDirty ≤ 2 ^ 31) :
  Lifetime conf zoom (state = .tileOld ∨ state = .tileVeryOld) maxAge
  := by
  have hhost' : ¬(conf.cacheExtendedHostname ≠ [] ∧
      (Bytes.splitFirst conf.cacheExtendedHostname hostname).isSome) := by
    rintro ⟨hne, hsome⟩
    rcases hhost with hnil | hnone
    · exact hne hnil
    · rw [hnone] at hsome
      cases hsome
  rw [addExpiry, if_neg hhost'] at h
  split_ifs at h with hstate hz
  · obtain rfl := Option.some.inj h
    obtain ⟨hlow, hhigh⟩ : 0 ≤ holdoff p (conf.cacheDurationDirty / 2) rand ∧
        2 * holdoff p (conf.cacheDurationDirty / 2) rand ≤ conf.cacheDurationDirty :=
      holdoff_bounds hdirty (by omega)
    constructor
    case le_max => exact min_le_right _ _
    case dirty =>
      intro _
      constructor
      · exact min_le_min_right _ (by omega)
      · have hle := min_le_left (conf.cacheDurationDirty +
          holdoff p (conf.cacheDurationDirty / 2) rand) conf.cacheDurationMax
        omega
    case current => exact fun hnot => absurd hstate hnot
  · exact absurd hz (Int32.not_lt.mpr hzoom)
  · obtain ⟨lastModified, -, rfl⟩ := Option.map_eq_some_iff.mp h
    have hhalf : ((3 * 60 * 60 : ℚ)) = ((21600 : ℤ) : ℚ) / 2 := by norm_num
    have hlow : 0 ≤ holdoff p (3 * 60 * 60) rand := by
      rw [hhalf]
      exact (holdoff_bounds (by omega) (by omega)).1
    constructor
    case le_max => exact min_le_right _ _
    case dirty => exact fun hstate' => absurd hstate' hstate
    case current =>
      intro _
      apply min_le_min_right
      have hle := le_max_left (conf.mincachetime zoom.toInt.toNat) lastModified
      omega

/-- There is a time for which the tile may be cached if the age of the tile can be converted. -/
theorem isSome_addExpiry (h : (lastModified p conf requestTime mtime).isSome) :
  (addExpiry p conf maxzoom zoom hostname requestTime mtime state rand).isSome
  := by
  rw [addExpiry]
  split_ifs
  · rfl
  · rfl
  · simpa using h
  · simpa using h

/-! ### The response -/

/-- The age of the tile can be converted, as the hook finds the tile before and after it has asked
for a rendering. -/
structure HookEvents.AgeFits (p : FloatRounding) (conf : ServeConf) (requestTime : ℤ)
    (e : HookEvents) : Prop where
  before : (lastModified p conf requestTime (e.stat.mtime * DelayPool.aprUsecPerSec)).isSome
  after : (lastModified p conf requestTime (e.statAfter.mtime * DelayPool.aprUsecPerSec)).isSome

/-- The handler answers if the age of the tile can be converted. -/
theorem isSome_tileHandlerServe {hook : HookResult} {e : ServeEvents}
    (h : (lastModified p conf requestTime hook.mtime).isSome) :
  (tileHandlerServe p conf config (some .tileServe) rdata requestTime hook e).isSome
  := by
  have hread : ∀ z headers,
      (serveRead p conf config z rdata.layerNumber requestTime hook headers e).isSome := by
    intro z headers
    rw [serveRead]
    split_ifs
    · rfl
    · rw [Option.isSome_map]
      exact isSome_addExpiry h
    · rfl
  rw [tileHandlerServe, if_neg (not_not.mpr rfl)]
  split
  · rfl
  · split
    · exact hread _ _
    · split
      · exact hread _ _
      · rfl

/-- There is a response to a request for a tile if its age can be converted. -/
theorem isSome_respond {e : HookEvents} {e' : ServeEvents} (hcmd : rdata.cmd = some cmd)
    (hage : e.AgeFits p conf requestTime) :
  (respond p conf config rdata requestTime e e').isSome
  := by
  have hhook : HookCase conf requestTime cmd.z rdata.layerNumber e
      (tileStorageHook conf (some .tileServe) rdata requestTime e) := tileStorageHook_cases hcmd
  rw [respond]
  cases hhook with
  | refused _ _ hstatus _ =>
      rw [if_neg (by rw [hstatus]; simp)]
      rfl
  | missing _ _ hstatus _ =>
      rw [if_neg (by rw [hstatus]; simp)]
      rfl
  | passed hstatus _ _ _ hstate =>
      rw [if_pos hstatus, Option.isSome_map]
      apply isSome_tileHandlerServe
      rcases hstate with ⟨-, hmtime, -⟩ | ⟨-, -, hmtime⟩
      · rw [hmtime]
        exact hage.before
      · rw [hmtime]
        exact hage.after

/-- The key of the metatile of a command. -/
def commandKey (cmd : Protocol) : StoreMemcached.MetaKey :=
  tileKey cmd.xmlnameString cmd.optionsString cmd.x cmd.y cmd.z

/-- The tile of a command in what has been saved for its metatile. -/
def commandTile (cmd : Protocol) (e : SavedTile) : List UInt8 :=
  e.tile.tileAt (MetaTile.xyzToMetaOffset cmd.x cmd.y)

/-- The directory has room for the metatile of a command, and for the file that an import
touches. -/
structure HasPaths (tileDir : List UInt8) (cmd : Protocol) : Prop where
  tile : Fits pathMax tileDir cmd.xmlnameString cmd.optionsString cmd.x cmd.y cmd.z
  planet : (planetPath tileDir cmd.xmlnameString).length < pathMax

/-- The tiles that are saved fit into the buffer, and reading is not disturbed. -/
structure Visit.Readable (v : Visit) (cmd : Protocol) : Prop where
  size : ∀ e ∈ v.atRead.saved (commandKey cmd), (commandTile cmd e).length ≤ maxSize
  undisturbed : v.outcome.Undisturbed

namespace Visit

variable (hrun : v.Run tileDir) (hname : ValidName cmd.xmlnameString)
  (htile : ValidTile cmd.x cmd.y cmd.z) (hpaths : HasPaths tileDir cmd)

include hrun hname htile hpaths

/-- What is read is what has been saved. -/
theorem read_eq (hreadable : v.Readable cmd) :
  (v.serveEvents tileDir cmd).read =
    StoreFile.savedRead (StoreFileUtils.xyzoToMeta pathMax tileDir cmd.xmlnameString
        cmd.optionsString cmd.x cmd.y cmd.z).1 v.outcome.reason
      (MetaTile.xyzToMetaOffset cmd.x cmd.y) (v.atRead.saved (commandKey cmd))
  := by
  have hreach := (hrun.hook.trans hrun.render).trans hrun.read
  apply (StoreFile.reach_represents hreach).fileTileRead
  · exact StoreFile.keyValid_tileKey hname htile hpaths.tile
  · exact hreadable.undisturbed
  · exact hreadable.size

/-- The state of the tile is that of what has been saved. -/
theorem stat_agrees :
  (v.hookEvents tileDir cmd).stat.Agrees (v.atHook.saved (commandKey cmd))
    (v.atHook.importTime cmd.xmlnameString v.now)
  := by
  apply (StoreFile.reach_represents hrun.hook).fileTileStat _ hpaths.planet
  exact StoreFile.keyValid_tileKey hname htile hpaths.tile

end Visit

/-- A body is what has been read. -/
theorem body_of_respond {e : HookEvents} {e' : ServeEvents} {body : List UInt8}
    (hcmd : rdata.cmd = some cmd) (h : respond p conf config rdata requestTime e e' = some r)
    (hbody : r.body = some body) :
  0 < e'.read.ret ∧ body = e'.read.buf.take e'.read.ret.toNat
  := by
  have hhook : HookCase conf requestTime cmd.z rdata.layerNumber e
      (tileStorageHook conf (some .tileServe) rdata requestTime e) := tileStorageHook_cases hcmd
  rw [respond] at h
  cases hhook with
  | refused _ _ hstatus _ =>
      rw [if_neg (by rw [hstatus]; simp)] at h
      obtain rfl := Option.some.inj h
      cases hbody
  | missing _ _ hstatus _ =>
      rw [if_neg (by rw [hstatus]; simp)] at h
      obtain rfl := Option.some.inj h
      cases hbody
  | passed hstatus fresh _ _ _ =>
      rw [if_pos hstatus] at h
      obtain ⟨r', hr', rfl⟩ := Option.map_eq_some_iff.mp h
      cases tileHandlerServe_cases hcmd hr' with
      | cors _ _ hnone _ => cases hnone.symm.trans hbody
      | noMemory _ _ hnone _ => cases hnone.symm.trans hbody
      | unread _ _ _ hnone _ => cases hnone.symm.trans hbody
      | read _ hread _ _ _ hsome _ _ =>
          refine ⟨hread, ?_⟩
          have hsome := hsome.symm.trans hbody
          cases hconditions : e'.conditions with
          | met =>
              rw [hconditions] at hsome
              exact (Option.some.inj hsome).symm
          | notModified => rw [hconditions] at hsome; cases hsome
          | preconditionFailed => rw [hconditions] at hsome; cases hsome

/-- A body is the tile of the command in what has been saved. -/
theorem Visit.exists_saved_of_body (hrun : v.Run tileDir) (hname : ValidName cmd.xmlnameString)
    (htile : ValidTile cmd.x cmd.y cmd.z) (hpaths : HasPaths tileDir cmd)
    (hreadable : v.Readable cmd) (hcmd : rdata.cmd = some cmd)
    (hstore : rdata.store = some ⟨.file, tileDir⟩) (hr : v.response config rdata = some r)
    {body : List UInt8} (hbody : r.body = some body) :
  ∃ e, v.atRead.saved (commandKey cmd) = some e ∧ body = commandTile cmd e
  := by
  rw [Visit.response, hcmd, hstore] at hr
  obtain ⟨hread, rfl⟩ := body_of_respond hcmd hr hbody
  have heq := v.read_eq hrun hname htile hpaths hreadable
  rw [heq] at hread ⊢
  cases he : v.atRead.saved (commandKey cmd) with
  | none =>
      rw [he] at hread
      have hneg : ¬(0 : ℤ) < -1 := by decide
      exact absurd hread hneg
  | some e => exact ⟨e, rfl, List.take_length⟩

/-- A server with one layer. -/
def defaultServer : ServerConf :=
  sampleServer.addTileMimeConfig (Bytes.ofString "/osm/") (Bytes.ofString "default")
    (Bytes.ofString "png")

/-- The layer of the server. -/
def defaultLayer : TileConfigRec :=
  sampleServer.tileConfigRec (Bytes.ofString "/osm/") (Bytes.ofString "default") 0
    (Int32.ofNat maxZoom) 1 1 (Bytes.ofString "png") (Bytes.ofString "image/png") [] [] [] [] [] 0

/-- The path of a tile of the layer. -/
def samplePath : List UInt8 := Bytes.ofString "/osm/5/11/17.png"

theorem squareLayer_defaultLayer :
  SquareLayer defaultLayer
  where
  name := ⟨by decide, by decide, by decide⟩
  zero_notMem := by decide
  aspectX := rfl
  aspectY := rfl
  maxzoom_le := by decide

set_option synthInstance.maxSize 256 in
/-- The path is accepted. -/
theorem tileTranslate_samplePath :
  ∃ rdata userdata cmd,
    tileTranslate zeroLocals ⟨some true, true⟩ defaultServer.configs samplePath none =
      some ⟨.ok .tileServe, some rdata, userdata⟩ ∧
    rdata.layerNumber = 0 ∧ rdata.cmd = some cmd ∧
    rdata.store = some ⟨.file, Bytes.ofString "/tiles"⟩ ∧
    (cmd.xmlnameString, cmd.optionsString, cmd.x, cmd.y, cmd.z) =
      (Bytes.ofString "default", [], 11, 17, 5)
  := by
  have hrun : ((tileTranslate zeroLocals ⟨some true, true⟩ defaultServer.configs samplePath
      none).bind fun t => t.rdata.bind fun rdata => rdata.cmd.map fun cmd =>
        ((t.status, rdata.layerNumber, rdata.store),
          (cmd.xmlnameString, cmd.optionsString, cmd.x, cmd.y, cmd.z))) =
      some ((.ok .tileServe, 0, some ⟨.file, Bytes.ofString "/tiles"⟩),
        (Bytes.ofString "default", [], 11, 17, 5)) := by
    decide +kernel
  obtain ⟨⟨status, rdata', userdata⟩, htranslate, hrun⟩ := Option.bind_eq_some_iff.mp hrun
  obtain ⟨rdata, rfl, hrun⟩ := Option.bind_eq_some_iff.mp hrun
  obtain ⟨cmd, hcmd, hrun⟩ := Option.map_eq_some_iff.mp hrun
  obtain ⟨hrdata, hcommand⟩ := Prod.mk.inj hrun
  obtain ⟨rfl, hlayer, hstore⟩ := by simpa only [Prod.mk.injEq] using hrdata
  exact ⟨rdata, userdata, cmd, htranslate, hlayer, hcmd, hstore, hcommand⟩

/-- A visit during which the store does not change and the render daemon does not answer. -/
def sampleVisit (s : FileStore) : Visit where
  conf := {
    veryOldThreshold := 0
    cacheExtendedHostname := []
    cacheDurationLastModifiedFactor := .finite 0
    cacheDurationDirty := 900
    cacheDurationMax := 604800
    cacheExtendedDuration := 0
    enableBulkMode := false
    enableGlobalStats := true
    enableTileThrottling := true
    maxLoadMissing := 50
    maxLoadOld := 16
    mincachetime := fun _ => 3600 }
  rounding := FloatRounding.exact
  requestTime := 3000 * DelayPool.aprUsecPerSec
  allowed := true
  load := .finite 0
  rendered := false
  atHook := s
  atRender := s
  atRead := s
  now := 3000
  nowAfter := 3000
  outcome := ⟨true, true, fun _ => some 4096, true, []⟩
  cors := ⟨none, false, false, none⟩
  acceptEncoding := none
  hostname := []
  allocated := true
  rand := ⟨0, zero_lt_randMax⟩
  duration := 7
  md5 := fun _ => []
  conditions := .met

/-- The ages of the tile can be converted, since the factor for them is zero. -/
theorem ageFits_sampleVisit (s : FileStore) (e : HookEvents) :
  e.AgeFits (sampleVisit s).rounding (sampleVisit s).conf (sampleVisit s).requestTime
  := by
  have hzero : ∀ mtime, (lastModified (sampleVisit s).rounding (sampleVisit s).conf
      (sampleVisit s).requestTime mtime).isSome := by
    intro mtime
    simp [sampleVisit, lastModified, FloatRounding.exact, doubleToInt, FloatRounding.truncate]
  exact ⟨hzero _, hzero _⟩

/-- A visit with a saved tile and its command meets what is assumed of visits. -/
structure SampleVisited (s : FileStore) (cmd : Protocol) : Prop where
  run : (sampleVisit s).Run (Bytes.ofString "/tiles")
  paths : HasPaths (Bytes.ofString "/tiles") cmd
  saved : s.saved (commandKey cmd) = some ⟨StoreFile.sampleMetaTile, 1000⟩
  imported : s.imported = fun _ => none
  tile : ∀ e ∈ s.saved (commandKey cmd), commandTile cmd e = Bytes.ofString "PNG"
  readable : (sampleVisit s).Readable cmd

theorem exists_sampleVisited {cmd : Protocol}
    (hcmd : (cmd.xmlnameString, cmd.optionsString, cmd.x, cmd.y, cmd.z) =
      (Bytes.ofString "default", [], 11, 17, 5)) :
  ∃ s, SampleVisited s cmd
  := by
  obtain ⟨hname, hoptions, hx, hy, hz⟩ := by simpa only [Prod.mk.injEq] using hcmd
  have hroom : (StoreFileUtils.metaText (Bytes.ofString "/tiles") (Bytes.ofString "default") [] 8 16
      5).length < pathMax := by
    decide +kernel
  obtain ⟨s, hreach, hsaved, himported⟩ := StoreFile.exists_saved_sampleMetaTile hroom
  have hkey : s.saved (commandKey cmd) = some ⟨StoreFile.sampleMetaTile, 1000⟩ := by
    rw [commandKey, hname, hoptions, hx, hy, hz]
    exact hsaved
  have htile : ∀ e ∈ s.saved (commandKey cmd), commandTile cmd e = Bytes.ofString "PNG" := by
    intro e he
    obtain rfl := Option.some.inj (hkey.symm.trans he)
    rw [commandTile, hx, hy]
    decide +kernel
  refine ⟨s, ⟨hreach, .refl, .refl⟩, ⟨?_, ?_⟩, hkey, himported, htile, ⟨?_, ?_⟩⟩
  · rw [hname, hoptions, hx, hy, hz]
    exact show _ < pathMax by decide +kernel
  · rw [hname]
    decide +kernel
  · intro e he
    rw [htile e he]
    decide
  · exact ⟨rfl, rfl, by simp [sampleVisit], rfl⟩

/-- A tile that has been saved is outdated if it is older than the last import. -/
theorem tileState_of_agrees {stat : StoreFile.TileStat} {e : SavedTile} {importTime : ℤ}
    (conf : ServeConf) (requestTime : ℤ) (h : stat.Agrees (some e) importTime) :
  tileState conf requestTime stat ≠ .tileMissing ∧
    ((tileState conf requestTime stat = .tileOld ∨ tileState conf requestTime stat = .tileVeryOld) ↔
      e.mtime < importTime)
  := by
  have hsize : ¬stat.size < 0 := by
    rw [h.size, StoreFile.savedSize]
    omega
  have hexpired := h.expired
  rw [StoreFile.savedMtime] at hexpired
  rw [tileState, if_neg hsize]
  split_ifs at hexpired with hold
  · rw [if_pos (by rw [hexpired]; decide)]
    split_ifs <;> simp [hold]
  · rw [if_neg (by rw [hexpired]; decide)]
    simp [hold]

end TileModule
