import Mathlib.Data.UInt
import ModTile.CondVar
import ModTile.Guarded
import ModTile.Tally
import ModTile.TileModule.Serve

/-!
# The statistics of the Apache module

The counters of `mod_tile.c`, which all processes of the server share.  A thread counts what it has
done under the lock `stats_mutex`, and does without when it does not get the lock in time.  Each
statement under the lock is a step of its own.  The page with the statistics is made from a copy,
which is taken under the lock as well.

The counters are arrays for the zoom levels and for the layers, and totals.  `mod_tile_post_config`
sets them to zero, but in the arrays for the zoom levels only as far as the greatest zoom level of a
layer.  The memory had any content before.  How large the arrays for the layers are, and what the
greatest zoom level is, has been found out while the directives of all virtual hosts were read.
-/

open Transition

namespace TileModule

/-! ### The counters -/

/-- The counters of `stats_data`. -/
inductive Counter where
  | noResp200
  | noResp304
  | noResp404
  | noResp503
  | noResp5XX
  | noRespOther
  | noFreshCache
  | noFreshRender
  | noOldCache
  | noOldRender
  | noVeryOldCache
  | noVeryOldRender
  | noRespZoom (z : ℤ)
  | totalBufferRetrievalTime
  | noTotalBufferRetrieval
  | zoomBufferRetrievalTime (z : ℤ)
  | noZoomBufferRetrieval (z : ℤ)
  | noResp200Layer (layerNumber : ℕ)
  | noResp404Layer (layerNumber : ℕ)
  deriving DecidableEq

/-- The content of the shared memory. -/
abbrev StatsData : Type := Counter → UInt64

/-- The counter is one of the totals, or in its array, where the arrays for the zoom levels go up to
`maxz` and those for the layers have the given size. -/
def Counter.upTo (maxz : ℤ) (layerCount : ℕ) : Counter → Bool
  | noRespZoom z | zoomBufferRetrievalTime z | noZoomBufferRetrieval z => 0 ≤ z ∧ z ≤ maxz
  | noResp200Layer layerNumber | noResp404Layer layerNumber => layerNumber < layerCount
  | _ => true

/-- The counter for the status of a response. -/
def Status.counter : Status → Counter
  | ok => .noResp200
  | httpNotModified => .noResp304
  | httpNotFound => .noResp404
  | httpServiceUnavailable => .noResp503
  | httpInternalServerError => .noResp5XX
  | _ => .noRespOther

/-- The counter for the freshness of a tile. -/
def Freshness.counter : Freshness → Counter
  | fresh => .noFreshCache
  | freshRender => .noFreshRender
  | old => .noOldCache
  | veryOld => .noVeryOldCache
  | oldRender => .noOldRender
  | veryOldRender => .noVeryOldRender

/-- The statements between the lock and the unlock of `stats_mutex`: to which counters something is
added. -/
def Count.entries : Count → List (Counter × UInt64)
  | .resp status z layerNumber =>
      (status.counter, 1) ::
        match status, z with
        | .ok, some z | .httpNotModified, some z =>
            [(.noRespZoom z.toInt, 1), (.noResp200Layer layerNumber, 1)]
        | .httpNotFound, _ => [(.noResp404Layer layerNumber, 1)]
        | _, _ => []
  | .fresh status => [(status.counter, 1)]
  | .timing duration z =>
      [(.totalBufferRetrievalTime, duration), (.zoomBufferRetrievalTime z.toInt, duration),
        (.noTotalBufferRetrieval, 1), (.noZoomBufferRetrieval z.toInt, 1)]

/-- A statement under the lock, which is undefined for a counter outside of its array. -/
def exec (layerCount : ℕ) (stats : StatsData) (entry : Counter × UInt64) :
    Except Counter StatsData :=
  if entry.1.upTo maxZoomServer layerCount then .ok (Tally.add stats entry) else .error entry.1

/-- The counters that `mod_tile_post_config` sets to zero. -/
def postConfig (layerCount : ℕ) (globalMaxZoom : ℤ) (memory : StatsData) : StatsData
  | .noVeryOldCache => memory .noVeryOldCache
  | .noVeryOldRender => memory .noVeryOldRender
  | counter => if counter.upTo globalMaxZoom layerCount then 0 else memory counter

/-! ### The directives -/

/-- The directives for layers. -/
inductive Directive where
  | tileDir (dir : List UInt8)
  | addTileMimeConfig (baseuri name fileExtension : List UInt8)
  | addTileConfig (argv : List (List UInt8))
  | loadTileConfig (configFileName : List UInt8) (file : Option (List RenderdConfig.IniSection))

/-- The configuration of a server after a directive. -/
def Directive.apply (scfg : ServerConf) : Directive → Except DirectiveError ServerConf
  | tileDir dir => .ok { scfg with tileDir := dir }
  | addTileMimeConfig baseuri name fileExtension =>
      .ok (scfg.addTileMimeConfig baseuri name fileExtension)
  | addTileConfig argv => scfg.addTileConfig argv
  | loadTileConfig configFileName file => scfg.loadTileConfig configFileName file

/-- The configurations of the main server, which has the number zero, and of the virtual hosts, with
the variables `layerCount` and `global_max_zoom`. -/
structure Configuration where
  servers : ℕ → ServerConf
  layerCount : ℕ
  globalMaxZoom : ℤ

namespace Configuration

/-- The servers before the first directive. -/
def init (tileDir : List UInt8) (serverHostname : ℕ → Option (List UInt8)) : Configuration where
  servers := fun i => ⟨[], tileDir, serverHostname i⟩
  layerCount := 0
  globalMaxZoom := 0

/-- The greatest zoom level after a layer has been added. -/
def raise (globalMaxZoom : ℤ) (config : TileConfigRec) : ℤ :=
  if config.maxzoom.toInt > globalMaxZoom then config.maxzoom.toInt else globalMaxZoom

/-- A directive for one of `n` servers.  When it is rejected, the server does not start. -/
def step (n : ℕ) (c : Configuration) (d : ℕ × Directive) : Option Configuration :=
  if d.1 < n then
    match d.2.apply (c.servers d.1) with
    | .error _ => none
    | .ok scfg =>
        let added := scfg.configs.drop (c.servers d.1).configs.length
        some {
          servers := Function.update c.servers d.1 scfg
          layerCount := c.layerCount + added.length
          globalMaxZoom := added.foldl raise c.globalMaxZoom }
  else none

/-- The layers of a server when all directives have been read. -/
def configs (c : Configuration) (i : ℕ) : List TileConfigRec :=
  if i = 0 then (c.servers 0).configs else ((c.servers 0).merge (c.servers i)).configs

end Configuration

/-! ### The requests -/

/-- A request for a path, with the configuration of its server and everything that is met while it
is dealt with. -/
structure TileRequest where
  conf : ServeConf
  configs : List TileConfigRec
  locals : Locals
  init : Store.InitOutcome
  uri : List UInt8
  userdata : Userdata
  requestTime : ℤ
  rounding : FloatRounding
  hook : HookEvents
  serve : ServeEvents

/-- The response to a request that `tile_translate` accepts for `tile_serve`, or for which it finds
no storage backend.  Other requests are not counted.  The command and the layer do not matter when
there is no storage backend. -/
def TileRequest.response (r : TileRequest) : Option Response :=
  match tileTranslate r.locals r.init r.configs r.uri r.userdata with
  | some ⟨.ok .tileServe, some rdata, _⟩ =>
      match r.configs[rdata.layerNumber]? with
      | some config =>
          respond r.rounding r.conf config rdata r.requestTime r.hook r.serve
      | none => none
  | some ⟨.httpInternalServerError, _, _⟩ =>
      some ⟨.httpInternalServerError, none, [], [.resp .httpInternalServerError none 0]⟩
  | _ => none

/-! ### The threads -/

/-- What a thread does: it has something left to count, or is in a critical section in which it
counts, after which something is left, or copies. -/
inductive Thread where
  | serving (todo : List Count)
  | counting (todo : List Count)
  | copying

/-- What a thread has left to count. -/
def Thread.todo : Thread → List Count
  | serving todo => todo
  | counting todo => todo
  | copying => []

/-- The threads of all processes, the counters with their lock, the responses to the requests of
servers with statistics, and what has been counted and what has not for want of the lock. -/
structure Server where
  threads : ℕ → Thread
  stats : Guarded ℕ (Counter × UInt64) Counter StatsData
  responses : List Response
  counted : List Count
  lost : List Count

/-- A step of a thread: a request, an attempt to get the lock, the lock for a copy, a statement
under the lock, or the unlock. -/
inductive ServerStep where
  | request (t : ℕ) (r : TileRequest)
  | lock (t : ℕ) (obtained : Bool)
  | copy (t : ℕ)
  | exec (t : ℕ)
  | unlock (t : ℕ)

/-- The thread of a step. -/
def ServerStep.thread : ServerStep → ℕ
  | request t _ | lock t _ | copy t | exec t | unlock t => t

namespace Server

/-- The threads before the first request. -/
def init (c : Configuration) (memory : StatsData) : Server where
  threads := fun _ => .serving []
  stats := .init (postConfig c.layerCount c.globalMaxZoom memory)
  responses := []
  counted := []
  lost := []

/-- The server after a thread has come to another place. -/
def setThread (s : Server) (t : ℕ) (thread : Thread) : Server :=
  { s with threads := Function.update s.threads t thread }

/-- A request: its response, which is counted if the server has statistics. -/
def request (s : Server) (t : ℕ) (r : TileRequest) : Option Server :=
  r.response.map fun response =>
    if r.conf.enableGlobalStats then
      { s.setThread t (.serving response.counts) with responses := s.responses ++ [response] }
    else s

/-- A step of a thread.  There is no result when the thread is not at this point, when the lock is
not free, and after something undefined. -/
def step (c : Configuration) (s : Server) : ServerStep → Option Server
  | .request t r =>
      match s.threads t with
      | .serving [] => s.request t r
      | _ => none
  | .lock t obtained =>
      match s.threads t with
      | .serving (count :: todo) =>
          if obtained then
            (s.stats.lock t count.entries).map fun stats =>
              { s.setThread t (.counting todo) with
                stats := stats
                counted := s.counted ++ [count] }
          else some { s.setThread t (.serving todo) with lost := s.lost ++ [count] }
      | _ => none
  | .copy t =>
      match s.threads t with
      | .serving [] =>
          (s.stats.lock t []).map fun stats => { s.setThread t .copying with stats := stats }
      | _ => none
  | .exec t =>
      match s.threads t with
      | .counting _ =>
          (s.stats.next (TileModule.exec c.layerCount) t).map fun stats => { s with stats := stats }
      | _ => none
  | .unlock t =>
      match s.threads t with
      | .counting todo =>
          (s.stats.unlock t).map fun stats =>
            { s.setThread t (.serving todo) with stats := stats }
      | .copying =>
          (s.stats.unlock t).map fun stats => { s.setThread t (.serving []) with stats := stats }
      | _ => none

/-- A step of one of `threads` threads, for a request to one of `n` servers. -/
def Valid (n threads : ℕ) (c : Configuration) (_ : Server) (a : ServerStep) : Prop :=
  a.thread < threads ∧ ∀ t r, a = .request t r → ∃ i < n, r.configs = c.configs i

end Server

/-! ### The sizes of the arrays -/

namespace Configuration

variable {n i : ℕ} {c c' : Configuration} {d : ℕ × Directive} {scfg scfg' : ServerConf}

/-- A directive adds layers at the end. -/
theorem exists_added {d : Directive} (h : d.apply scfg = .ok scfg') :
  ∃ added, scfg'.configs = scfg.configs ++ added
  := by
  cases d with
  | tileDir dir =>
      obtain rfl := Except.ok.inj h
      exact ⟨[], (List.append_nil _).symm⟩
  | addTileMimeConfig baseuri name fileExtension =>
      obtain rfl := Except.ok.inj h
      rw [ServerConf.addTileMimeConfig]
      split
      exact ⟨_, rfl⟩
  | addTileConfig argv =>
      rw [Directive.apply] at h
      cases argv with
      | nil => contradiction
      | cons baseuri argv =>
          cases argv with
          | nil => contradiction
          | cons name argv =>
              rw [ServerConf.addTileConfig] at h
              split_ifs at h
              obtain rfl := Except.ok.inj h
              exact ⟨_, rfl⟩
  | loadTileConfig configFileName file =>
      cases file with
      | none => contradiction
      | some ini =>
          obtain ⟨maps, -, hconfigs⟩ := loadTileConfig_spec h
          exact ⟨_, hconfigs⟩

theorem configured_apply {d : Directive} (hscfg : Configured scfg) (h : d.apply scfg = .ok scfg') :
  Configured scfg'
  := by
  cases d with
  | tileDir dir =>
      obtain rfl := Except.ok.inj h
      exact hscfg.tileDir dir
  | addTileMimeConfig baseuri name fileExtension =>
      obtain rfl := Except.ok.inj h
      exact hscfg.addTileMimeConfig baseuri name fileExtension
  | addTileConfig argv => exact hscfg.addTileConfig h
  | loadTileConfig configFileName file => exact hscfg.loadTileConfig h

/-- The greatest zoom level is at least that of every layer that is added, and is one of them if it
changes. -/
theorem foldl_raise (added : List TileConfigRec) (z : ℤ) :
  z ≤ added.foldl raise z ∧ (∀ config ∈ added, config.maxzoom.toInt ≤ added.foldl raise z) ∧
    (added.foldl raise z = z ∨ ∃ config ∈ added, config.maxzoom.toInt = added.foldl raise z)
  := by
  induction added generalizing z with
  | nil => exact ⟨le_rfl, by simp, .inl rfl⟩
  | cons config added ih =>
      obtain ⟨hle, hall, hmem⟩ := ih (raise z config)
      have hraise : z ≤ raise z config ∧ config.maxzoom.toInt ≤ raise z config ∧
          (raise z config = z ∨ config.maxzoom.toInt = raise z config) := by
        rw [raise]
        split_ifs <;> omega
      rw [List.foldl_cons, List.forall_mem_cons, List.exists_mem_cons_iff]
      refine ⟨hraise.1.trans hle, ⟨hraise.2.1.trans hle, hall⟩, ?_⟩
      rcases hmem with hmem | hmem
      · rw [hmem]
        exact hraise.2.2.imp_right .inl
      · exact .inr (.inr hmem)

/-- The two variables are right for the layers of `n` servers. -/
structure Sound (n : ℕ) (c : Configuration) : Prop where
  count : c.layerCount = ∑ i ∈ Finset.range n, (c.servers i).configs.length
  zoom : ∀ i, ∀ config ∈ (c.servers i).configs, config.maxzoom.toInt ≤ c.globalMaxZoom
  nonneg : 0 ≤ c.globalMaxZoom
  le_max : c.globalMaxZoom ≤ maxZoomServer
  configured : ∀ i, Configured (c.servers i)

theorem sound_init (n : ℕ) (tileDir : List UInt8) (serverHostname : ℕ → Option (List UInt8)) :
  (init tileDir serverHostname).Sound n
  := by
  constructor
  case count => simp [init]
  case zoom => simp [init]
  case nonneg => exact le_rfl
  case le_max =>
    dsimp only [init, maxZoomServer]
    omega
  case configured => exact fun i => .server _ _

/-- What a directive does. -/
theorem step_eq_some (hstep : c.step n d = some c') :
  ∃ scfg added, d.1 < n ∧ d.2.apply (c.servers d.1) = .ok scfg ∧
    scfg.configs = (c.servers d.1).configs ++ added ∧
    c' = {
      servers := Function.update c.servers d.1 scfg
      layerCount := c.layerCount + added.length
      globalMaxZoom := added.foldl raise c.globalMaxZoom }
  := by
  unfold Configuration.step at hstep
  split_ifs at hstep with hd
  split at hstep
  · cases hstep
  · rename_i scfg hscfg
    obtain ⟨added, hadded⟩ := exists_added hscfg
    rw [hadded, List.drop_left] at hstep
    exact ⟨scfg, added, hd, hscfg, hadded, (Option.some.inj hstep).symm⟩

theorem Sound.step (h : c.Sound n) (hstep : c.step n d = some c') :
  c'.Sound n
  := by
  obtain ⟨scfg, added, hd, hscfg, hadded, rfl⟩ := step_eq_some hstep
  have hconfigured := configured_apply (h.configured d.1) hscfg
  obtain ⟨hle, hall, hmem⟩ := foldl_raise added c.globalMaxZoom
  have hother : ∀ i ≠ d.1, Function.update c.servers d.1 scfg i = c.servers i :=
    fun i hi => Function.update_of_ne hi _ _
  constructor
  case count =>
    have hsum := CondVar.sum_range_of_ne hd
      (fun i hi => congrArg (fun scfg => scfg.configs.length) (hother i hi))
    have hcount := h.count
    simp only [Function.update_self, hadded, List.length_append] at hsum
    dsimp only
    omega
  case zoom =>
    intro i config hconfig
    dsimp only at hconfig ⊢
    rcases eq_or_ne i d.1 with rfl | hi
    · rw [Function.update_self, hadded, List.mem_append] at hconfig
      rcases hconfig with hconfig | hconfig
      · exact (h.zoom _ config hconfig).trans hle
      · exact hall config hconfig
    · rw [hother i hi] at hconfig
      exact (h.zoom i config hconfig).trans hle
  case nonneg => exact h.nonneg.trans hle
  case le_max =>
    rcases hmem with hmem | ⟨config, hconfig, hmem⟩
    · exact hmem.trans_le h.le_max
    · have hmem' : config ∈ scfg.configs := by
        rw [hadded]
        exact List.mem_append_right _ hconfig
      exact hmem ▸ (hconfigured.supported config hmem').2
  case configured =>
    intro i
    dsimp only
    rcases eq_or_ne i d.1 with rfl | hi
    · rwa [Function.update_self]
    · rw [hother i hi]
      exact h.configured i

/-- The layers of a server are configured, are not more than are counted, and their zoom levels are
not above the greatest one. -/
theorem Sound.configs (h : c.Sound n) (hi : i < n) :
  (c.configs i).length ≤ c.layerCount ∧
    (∀ config ∈ c.configs i, config.maxzoom.toInt ≤ c.globalMaxZoom) ∧
    ∃ scfg, Configured scfg ∧ scfg.configs = c.configs i
  := by
  have hcount := h.count
  rw [Configuration.configs]
  split_ifs with hzero
  · refine ⟨?_, h.zoom 0, _, h.configured 0, rfl⟩
    have hone : ∑ j ∈ {0}, (c.servers j).configs.length ≤ c.layerCount := by
      rw [hcount]
      apply Finset.sum_le_sum_of_subset
      rw [Finset.singleton_subset_iff, Finset.mem_range]
      omega
    rwa [Finset.sum_singleton] at hone
  · refine ⟨?_, ?_, _, .merge (h.configured 0) (h.configured i), rfl⟩
    · have hpair : ∑ j ∈ {0, i}, (c.servers j).configs.length ≤ c.layerCount := by
        rw [hcount]
        apply Finset.sum_le_sum_of_subset
        intro j hj
        rw [Finset.mem_insert, Finset.mem_singleton] at hj
        rw [Finset.mem_range]
        omega
      rw [Finset.sum_pair (Ne.symm hzero)] at hpair
      rw [ServerConf.merge, List.length_append]
      exact hpair
    · intro config hconfig
      rcases List.mem_append.mp hconfig with hconfig | hconfig
      · exact h.zoom 0 config hconfig
      · exact h.zoom i config hconfig

end Configuration

/-! ### What a request counts -/

variable {c : Configuration} {n i : ℕ} {r : TileRequest} {response : Response} {count : Count}
  {maxz : ℤ} {layerCount layerNumber : ℕ} {z : Int32}

/-- The counters of a count are in their arrays, and a response for which there is a tile is counted
with its zoom level. -/
structure Count.InRange (maxz : ℤ) (layerCount : ℕ) (count : Count) : Prop where
  upTo : ∀ entry ∈ count.entries, entry.1.upTo maxz layerCount = true
  zoom : ∀ layerNumber, count ≠ .resp .ok none layerNumber ∧
    count ≠ .resp .httpNotModified none layerNumber

theorem Count.IsOf.inRange (h : count.IsOf z layerNumber) (hz : 0 ≤ z.toInt)
    (hmaxz : z.toInt ≤ maxz) (hlayer : layerNumber < layerCount) :
  count.InRange maxz layerCount
  := by
  cases count with
  | resp status z' layerNumber' =>
      obtain ⟨rfl, rfl⟩ := h
      constructor
      · cases status <;> simp [Count.entries, Status.counter, Counter.upTo, hz, hmaxz, hlayer]
      · simp
  | fresh status =>
      constructor
      · cases status <;> simp [Count.entries, Freshness.counter, Counter.upTo]
      · simp
  | timing duration z' =>
      obtain rfl : z' = z := h
      constructor
      · simp [Count.entries, Counter.upTo, hz, hmaxz]
      · simp

/-- The zoom level of a tile of a layer. -/
theorem zoom_of_outOfBounds {config : TileConfigRec} {cmd : Protocol}
    (hsupported : Supported config) (h : outOfBounds config cmd = false) :
  0 ≤ cmd.z.toInt ∧ cmd.z.toInt ≤ config.maxzoom.toInt
  := by
  rw [outOfBounds] at h
  split_ifs at h with hzoom
  simp only [not_or, Int32.not_lt, Int32.le_iff_toInt_le] at hzoom
  exact ⟨hsupported.1.trans hzoom.1, hzoom.2⟩

/-- A request that is accepted is for a tile of one of the layers. -/
theorem tile_of_tileTranslate {scfg : ServerConf} {locals : Locals} {o : Store.InitOutcome}
    {uri : List UInt8} {userdata userdata' : Userdata} {rdata : TileRequestData}
    (hscfg : Configured scfg)
    (h : tileTranslate locals o scfg.configs uri userdata =
      some ⟨.ok .tileServe, some rdata, userdata'⟩) :
  ∃ config cmd, scfg.configs[rdata.layerNumber]? = some config ∧ rdata.cmd = some cmd ∧
    0 ≤ cmd.z.toInt ∧ cmd.z.toInt ≤ config.maxzoom.toInt
  := by
  obtain ⟨i, config, hselect, hlayer⟩ := tileTranslate_of_ok h rfl rfl
  obtain ⟨path, store, -, hbounds, hrdata⟩ := translateLayer_of_ok hlayer rfl rfl
  obtain ⟨j, rfl, hj, -⟩ := selectLayer_eq_some hselect
  obtain rfl := Option.some.inj hrdata
  have hzoom := zoom_of_outOfBounds (hscfg.supported config (List.mem_of_getElem? hj)) hbounds
  refine ⟨config, tileCommand config path, ?_, rfl, hzoom⟩
  rw [Nat.zero_add]
  exact hj

/-- A response is counted at most once, for its status, and everything that is counted has a
place. -/
theorem TileRequest.counts (hc : c.Sound n) (hi : i < n) (hconfigs : r.configs = c.configs i)
    (h : r.response = some response) :
  response.counts.filterMap Count.status = response.counted.toList ∧
    ∀ count ∈ response.counts, count.InRange c.globalMaxZoom c.layerCount
  := by
  obtain ⟨hlength, hzoom, scfg, hscfg, hscfgs⟩ := hc.configs hi
  unfold TileRequest.response at h
  split at h
  · rename_i rdata userdata htranslate
    rw [hconfigs, ← hscfgs] at htranslate h
    obtain ⟨config, cmd, hconfig, hcmd, hz, hmax⟩ := tile_of_tileTranslate hscfg htranslate
    rw [hconfig] at h
    obtain ⟨hcounted, hof⟩ := respond_counts hcmd h
    refine ⟨hcounted, ?_⟩
    intro count hcount
    rw [hscfgs] at hconfig
    apply (hof count hcount).inRange hz (hmax.trans (hzoom config (List.mem_of_getElem? hconfig)))
    exact (List.getElem?_eq_some_iff.mp hconfig).1.trans_le hlength
  · obtain rfl := Option.some.inj h
    refine ⟨rfl, List.forall_mem_singleton.mpr ?_⟩
    constructor
    · simp [Count.entries, Status.counter, Counter.upTo]
    · simp
  · cases h

/-! ### The sums -/

/-- The counters for the zoom levels up to `maxz`. -/
def zoomCells (f : ℤ → Counter) (maxz : ℤ) : Finset Counter :=
  (Finset.range (maxz.toNat + 1)).image fun z : ℕ => f z

/-- The counters for the layers. -/
def layerCells (f : ℕ → Counter) (layerCount : ℕ) : Finset Counter :=
  (Finset.range layerCount).image f

/-- The totals are the sums of the counters for the zoom levels and of those for the layers. -/
structure Balanced (maxz : ℤ) (layerCount : ℕ) (stats : StatsData) : Prop where
  zoom : ∑ z ∈ Finset.range (maxz.toNat + 1), stats (.noRespZoom z) =
    stats .noResp200 + stats .noResp304
  layer200 : ∑ i ∈ Finset.range layerCount, stats (.noResp200Layer i) =
    stats .noResp200 + stats .noResp304
  layer404 : ∑ i ∈ Finset.range layerCount, stats (.noResp404Layer i) = stats .noResp404
  reads : ∑ z ∈ Finset.range (maxz.toNat + 1), stats (.noZoomBufferRetrieval z) =
    stats .noTotalBufferRetrieval
  time : ∑ z ∈ Finset.range (maxz.toNat + 1), stats (.zoomBufferRetrievalTime z) =
    stats .totalBufferRetrievalTime

/-- Counters whose sums are equal. -/
inductive Balance (maxz : ℤ) (layerCount : ℕ) : Finset Counter → Finset Counter → Prop where
  | zoom : Balance maxz layerCount (zoomCells .noRespZoom maxz) {.noResp200, .noResp304}
  | layer200 :
      Balance maxz layerCount (layerCells .noResp200Layer layerCount) {.noResp200, .noResp304}
  | layer404 : Balance maxz layerCount (layerCells .noResp404Layer layerCount) {.noResp404}
  | reads :
      Balance maxz layerCount (zoomCells .noZoomBufferRetrieval maxz) {.noTotalBufferRetrieval}
  | time :
      Balance maxz layerCount (zoomCells .zoomBufferRetrievalTime maxz) {.totalBufferRetrievalTime}

theorem mem_zoomCells {f : ℤ → Counter} {counter : Counter} :
  counter ∈ zoomCells f maxz ↔ ∃ z : ℕ, z < maxz.toNat + 1 ∧ f z = counter
  := by
  simp only [zoomCells, Finset.mem_image, Finset.mem_range]

theorem sum_zoomCells {f : ℤ → Counter} (hf : Function.Injective f) (stats : StatsData) :
  ∑ k ∈ zoomCells f maxz, stats k = ∑ z ∈ Finset.range (maxz.toNat + 1), stats (f z)
  := by
  rw [zoomCells, Finset.sum_image]
  intro a _ b _ h
  exact Int.ofNat.inj (hf h)

theorem sum_layerCells {f : ℕ → Counter} (hf : Function.Injective f) (stats : StatsData) :
  ∑ k ∈ layerCells f layerCount, stats k = ∑ i ∈ Finset.range layerCount, stats (f i)
  := by
  rw [layerCells, Finset.sum_image hf.injOn]

/-- The totals are the sums when they are for all of these sets. -/
theorem balanced_of_balance {stats : StatsData}
    (h : ∀ S T, Balance maxz layerCount S T → ∑ k ∈ S, stats k = ∑ k ∈ T, stats k) :
  Balanced maxz layerCount stats
  := by
  constructor
  case zoom =>
    rw [← sum_zoomCells fun _ _ => Counter.noRespZoom.inj, h _ _ .zoom, Finset.sum_pair (by simp)]
  case layer200 =>
    rw [← sum_layerCells fun _ _ => Counter.noResp200Layer.inj, h _ _ .layer200,
      Finset.sum_pair (by simp)]
  case layer404 =>
    rw [← sum_layerCells fun _ _ => Counter.noResp404Layer.inj, h _ _ .layer404,
      Finset.sum_singleton]
  case reads =>
    rw [← sum_zoomCells fun _ _ => Counter.noZoomBufferRetrieval.inj, h _ _ .reads,
      Finset.sum_singleton]
  case time =>
    rw [← sum_zoomCells fun _ _ => Counter.zoomBufferRetrievalTime.inj, h _ _ .time,
      Finset.sum_singleton]

theorem exists_zoom {k : ℤ} (hk : 0 ≤ k) (hkz : k ≤ maxz) :
  ∃ m : ℕ, m ≤ maxz.toNat ∧ (m : ℤ) = k
  := ⟨k.toNat, by omega, by omega⟩

/-- A count adds the same amount to both sides of a balance. -/
theorem Balance.amount {S T : Finset Counter} (h : Balance maxz layerCount S T)
    (hcount : count.InRange maxz layerCount) :
  Tally.amount S count.entries = Tally.amount T count.entries
  := by
  have hupTo := hcount.upTo
  cases count with
  | resp status z layerNumber =>
      cases z with
      | none =>
          obtain ⟨hok, hnotModified⟩ := hcount.zoom layerNumber
          cases h <;> cases status <;>
            simp_all [Count.entries, Status.counter, Counter.upTo, Tally.amount, mem_zoomCells,
              layerCells]
      | some z =>
          have hzoom : 0 ≤ z.toInt → z.toInt ≤ maxz → ∃ m : ℕ, m ≤ maxz.toNat ∧ (m : ℤ) = z.toInt :=
            exists_zoom
          cases h <;> cases status <;>
            simp_all [Count.entries, Status.counter, Counter.upTo, Tally.amount, mem_zoomCells,
              layerCells]
  | fresh status =>
      cases h <;> cases status <;>
        simp [Count.entries, Freshness.counter, Tally.amount, mem_zoomCells, layerCells]
  | timing duration z =>
      have hzoom : 0 ≤ z.toInt → z.toInt ≤ maxz → ∃ m : ℕ, m ≤ maxz.toNat ∧ (m : ℤ) = z.toInt :=
        exists_zoom
      cases h <;>
        simp_all [Count.entries, Counter.upTo, Tally.amount, mem_zoomCells, layerCells]

/-- All these sums are zero at first. -/
theorem Balance.postConfig {S T : Finset Counter} (h : Balance maxz layerCount S T)
    (hmaxz : 0 ≤ maxz) (memory : StatsData) :
  ∑ k ∈ S, postConfig layerCount maxz memory k = ∑ k ∈ T, postConfig layerCount maxz memory k
  := by
  have hzero : ∀ U : Finset Counter, (∀ k ∈ U, TileModule.postConfig layerCount maxz memory k = 0) →
      ∑ k ∈ U, TileModule.postConfig layerCount maxz memory k = 0 :=
    fun U hU => Finset.sum_eq_zero hU
  rw [hzero S, hzero T]
  · cases h <;> simp [TileModule.postConfig, Counter.upTo]
  · intro k hk
    cases h with
    | zoom | reads | time =>
        obtain ⟨z, hz, rfl⟩ := mem_zoomCells.mp hk
        have hle : (z : ℤ) ≤ maxz := by omega
        simp [TileModule.postConfig, Counter.upTo, hle]
    | layer200 | layer404 =>
        obtain ⟨i, hi, rfl⟩ := Finset.mem_image.mp hk
        simp [TileModule.postConfig, Counter.upTo, Finset.mem_range.mp hi]

/-! ### Runs -/

/-- The statements under the lock add to the counters. -/
theorem foldlM_exec {l : List (Counter × UInt64)} {stats stats' : StatsData}
    (h : l.foldlM (exec layerCount) stats = .ok stats') :
  stats' = Tally.post stats l
  := by
  apply Loop.foldlM_invariant (P := fun done stats' => stats' = Tally.post stats done) h
  · rfl
  · intro done entry stats₁ stats₂ hdone hexec
    rw [exec] at hexec
    split_ifs at hexec
    obtain rfl := Except.ok.inj hexec
    rw [hdone, Tally.post, Tally.post, List.foldl_append]
    rfl

/-- The number of responses for which a counter stands. -/
def tally (k : Counter) (statuses : List Status) : ℕ :=
  statuses.countP fun status => status.counter = k

theorem tally_append (k : Counter) (l l' : List Status) :
  tally k (l ++ l') = tally k l + tally k l'
  := List.countP_append

/-- What is told by the counts of a list. -/
theorem filterMap_status_cons (count : Count) (counts : List Count) :
  (count :: counts).filterMap Count.status =
    count.status.toList ++ counts.filterMap Count.status
  := by
  cases hstatus : count.status with
  | none => exact List.filterMap_cons_none hstatus
  | some status => exact List.filterMap_cons_some hstatus

/-- What is counted for a status is added to its counter. -/
theorem amount_counter (status : Status) (counts : List Count) :
  Tally.amount {status.counter} (counts.flatMap Count.entries) =
    UInt64.ofNat (tally status.counter (counts.filterMap Count.status))
  := by
  induction counts with
  | nil => rfl
  | cons count counts ih =>
      have hone : Tally.amount {status.counter} count.entries =
          UInt64.ofNat (tally status.counter count.status.toList) := by
        cases count with
        | resp status' z layerNumber =>
            cases status' <;> cases z <;> cases status <;> rfl
        | fresh status' => cases status' <;> cases status <;> rfl
        | timing duration z => cases status <;> rfl
      rw [List.flatMap_cons, Tally.amount_append, hone, ih, filterMap_status_cons, tally_append,
        UInt64.ofNat_add]

namespace Server

variable {s s' : Server} {threads t : ℕ} {a : ServerStep} {memory : StatsData} {k : Counter}

/-- The responses for which a counter stands and which a thread has not counted yet. -/
def uncounted (s : Server) (threads : ℕ) (k : Counter) : ℕ :=
  ∑ t ∈ Finset.range threads, tally k ((s.threads t).todo.filterMap Count.status)

/-- What holds in every run: the counters are those after all critical sections, everything that
is counted has a place, a thread that copies has the lock, and every response is counted, lost or
left to count. -/
structure Kept (c : Configuration) (memory : StatsData) (threads : ℕ) (s : Server) : Prop where
  serial : s.stats.Serial (TileModule.exec c.layerCount)
    (postConfig c.layerCount c.globalMaxZoom memory)
  entered : s.stats.entered = s.counted.flatMap Count.entries
  counted : ∀ count ∈ s.counted, count.InRange c.globalMaxZoom c.layerCount
  todo : ∀ t, ∀ count ∈ (s.threads t).todo, count.InRange c.globalMaxZoom c.layerCount
  copying : ∀ t, s.threads t = .copying → s.stats.holder = some (t, [])
  responses : ∀ k, tally k (s.responses.filterMap Response.counted) =
    tally k (s.counted.filterMap Count.status) + tally k (s.lost.filterMap Count.status) +
      s.uncounted threads k

/-- What is left to count, after one thread has come to another place. -/
theorem uncounted_setThread (ht : t < threads) (thread : Thread) :
  (s.setThread t thread).uncounted threads k + tally k ((s.threads t).todo.filterMap Count.status) =
    s.uncounted threads k + tally k (thread.todo.filterMap Count.status)
  := by
  have hsum := CondVar.sum_range_of_ne (n := threads) (w := t)
    (f := fun t => tally k ((s.threads t).todo.filterMap Count.status))
    (g := fun t' => tally k (((s.setThread t thread).threads t').todo.filterMap Count.status)) ht
    (fun x hx => by simp only [setThread, Function.update_of_ne hx])
  simp only [setThread, Function.update_self] at hsum
  exact hsum

theorem kept_init :
  (init c memory).Kept c memory threads
  := by
  constructor
  case serial => exact Guarded.Serial.init
  case entered => rfl
  case counted => simp [init]
  case todo => simp [init, Thread.todo]
  case copying =>
    intro t ht
    cases ht
  case responses => simp [init, uncounted, Thread.todo, tally]

theorem threads_setThread_self (s : Server) (t : ℕ) (thread : Thread) :
  (s.setThread t thread).threads t = thread
  := Function.update_self ..

theorem threads_setThread_of_ne {t' : ℕ} (h : t' ≠ t) (thread : Thread) :
  (s.setThread t thread).threads t' = s.threads t'
  := Function.update_of_ne h ..

/-- What the threads have left to count has a place, after one of them has come to another place. -/
theorem Kept.todo_setThread {thread : Thread} (h : s.Kept c memory threads)
    (hthread : ∀ count ∈ thread.todo, count.InRange c.globalMaxZoom c.layerCount) :
  ∀ t', ∀ count ∈ ((s.setThread t thread).threads t').todo,
    count.InRange c.globalMaxZoom c.layerCount
  := by
  intro t'
  rcases eq_or_ne t' t with rfl | hne
  · rw [threads_setThread_self]
    exact hthread
  · rw [threads_setThread_of_ne hne]
    exact h.todo t'

/-- The threads that copy have the lock, after one of them has come to another place. -/
theorem Kept.copying_setThread {thread : Thread} (h : s.Kept c memory threads)
    (hthread : thread ≠ .copying) :
  ∀ t', (s.setThread t thread).threads t' = .copying → t' ≠ t ∧ s.stats.holder = some (t', [])
  := by
  intro t' ht'
  rcases eq_or_ne t' t with rfl | hne
  · rw [threads_setThread_self] at ht'
    exact absurd ht' hthread
  · rw [threads_setThread_of_ne hne] at ht'
    exact ⟨hne, h.copying t' ht'⟩

theorem Kept.request (h : s.Kept c memory threads) (hc : c.Sound n) (hi : i < n)
    (hconfigs : r.configs = c.configs i) (ht : t < threads) (hthread : s.threads t = .serving [])
    (hstep : s.request t r = some s') :
  s'.Kept c memory threads
  := by
  obtain ⟨response, hresponse, hs'⟩ := Option.map_eq_some_iff.mp hstep
  obtain ⟨hcounted, hrange⟩ := TileRequest.counts hc hi hconfigs hresponse
  split_ifs at hs'
  · subst hs'
    constructor
    case serial => exact h.serial
    case entered => exact h.entered
    case counted => exact h.counted
    case todo => exact h.todo_setThread hrange
    case copying => exact fun t' ht' => (h.copying_setThread (by simp) t' ht').2
    case responses =>
      intro k
      have hsum := uncounted_setThread (s := s) (k := k) ht (.serving response.counts)
      have hold := h.responses k
      have hnew : (s.responses ++ [response]).filterMap Response.counted =
          s.responses.filterMap Response.counted ++ response.counted.toList := by
        rw [List.filterMap_append]
        cases hr : response.counted with
        | none => rw [List.filterMap_cons_none hr]; rfl
        | some status => rw [List.filterMap_cons_some hr]; rfl
      have hnil : tally k (([] : List Count).filterMap Count.status) = 0 := rfl
      rw [hthread, Thread.todo, hnil, Thread.todo, hcounted] at hsum
      change tally k ((s.responses ++ [response]).filterMap Response.counted) =
        tally k (s.counted.filterMap Count.status) + tally k (s.lost.filterMap Count.status) +
          (s.setThread t (.serving response.counts)).uncounted threads k
      rw [hnew, tally_append]
      omega
  · subst hs'
    exact h

theorem filterMap_status_concat (counts : List Count) (count : Count) :
  (counts ++ [count]).filterMap Count.status =
    counts.filterMap Count.status ++ count.status.toList
  := by
  rw [List.filterMap_append, filterMap_status_cons, List.filterMap_nil, List.append_nil]

/-- A thread counts something, or does without. -/
theorem Kept.lock {obtained : Bool} (h : s.Kept c memory threads) (ht : t < threads)
    (hstep : s.step c (.lock t obtained) = some s') :
  s'.Kept c memory threads
  := by
  rw [Server.step] at hstep
  split at hstep
  · rename_i count todo hthread
    have hcount : ∀ k (thread : Thread), thread.todo = todo →
        (s.setThread t thread).uncounted threads k + tally k count.status.toList =
          s.uncounted threads k := by
      intro k thread htodo
      have hsum := uncounted_setThread (s := s) (k := k) ht thread
      rw [hthread, Thread.todo, htodo, filterMap_status_cons, tally_append] at hsum
      omega
    have hrange : count.InRange c.globalMaxZoom c.layerCount ∧
        ∀ count ∈ todo, count.InRange c.globalMaxZoom c.layerCount := by
      have htodo := h.todo t
      rw [hthread, Thread.todo, List.forall_mem_cons] at htodo
      exact htodo
    split_ifs at hstep
    · obtain ⟨stats, hlock, rfl⟩ := Option.map_eq_some_iff.mp hstep
      obtain ⟨hholder, hstats⟩ := Guarded.lock_eq_some.mp hlock
      constructor
      case serial => exact h.serial.lock hlock
      case entered =>
        rw [Guarded.entered_lock hlock, h.entered, List.flatMap_append, List.flatMap_singleton]
      case counted =>
        rw [List.forall_mem_append, List.forall_mem_singleton]
        exact ⟨h.counted, hrange.1⟩
      case todo => exact h.todo_setThread hrange.2
      case copying =>
        -- the lock was free, so that no thread was copying
        intro t' ht'
        obtain ⟨-, hcopying⟩ := h.copying_setThread (by simp) t' ht'
        cases hholder.symm.trans hcopying
      case responses =>
        intro k
        have hold := h.responses k
        have hcount := hcount k (.counting todo) rfl
        change tally k (s.responses.filterMap Response.counted) =
          tally k ((s.counted ++ [count]).filterMap Count.status) +
            tally k (s.lost.filterMap Count.status) +
            (s.setThread t (.counting todo)).uncounted threads k
        rw [filterMap_status_concat, tally_append]
        omega
    · obtain rfl := Option.some.inj hstep
      constructor
      case serial => exact h.serial
      case entered => exact h.entered
      case counted => exact h.counted
      case todo => exact h.todo_setThread hrange.2
      case copying => exact fun t' ht' => (h.copying_setThread (by simp) t' ht').2
      case responses =>
        intro k
        have hold := h.responses k
        have hcount := hcount k (.serving todo) rfl
        change tally k (s.responses.filterMap Response.counted) =
          tally k (s.counted.filterMap Count.status) +
            tally k ((s.lost ++ [count]).filterMap Count.status) +
            (s.setThread t (.serving todo)).uncounted threads k
        rw [filterMap_status_concat, tally_append]
        omega
  · cases hstep

/-- A thread comes to another place without counting. -/
theorem Kept.pass {thread : Thread} {stats : Guarded ℕ (Counter × UInt64) Counter StatsData}
    (h : s.Kept c memory threads) (ht : t < threads) (htodo : thread.todo = (s.threads t).todo)
    (hserial : stats.Serial (TileModule.exec c.layerCount)
      (postConfig c.layerCount c.globalMaxZoom memory))
    (hentered : stats.entered = s.stats.entered)
    (hcopying : ∀ t', (s.setThread t thread).threads t' = .copying →
      stats.holder = some (t', [])) :
  Kept c memory threads { s.setThread t thread with stats := stats }
  := by
  constructor
  case serial => exact hserial
  case entered => exact hentered.trans h.entered
  case counted => exact h.counted
  case todo =>
    apply h.todo_setThread
    rw [htodo]
    exact h.todo t
  case copying => exact hcopying
  case responses =>
    intro k
    have hsum := uncounted_setThread (s := s) (k := k) ht thread
    have hold := h.responses k
    rw [htodo] at hsum
    change tally k (s.responses.filterMap Response.counted) =
      tally k (s.counted.filterMap Count.status) + tally k (s.lost.filterMap Count.status) +
        (s.setThread t thread).uncounted threads k
    omega

theorem Kept.copy (h : s.Kept c memory threads) (ht : t < threads)
    (hstep : s.step c (.copy t) = some s') :
  s'.Kept c memory threads
  := by
  rw [Server.step] at hstep
  split at hstep
  · rename_i hthread
    obtain ⟨stats, hlock, rfl⟩ := Option.map_eq_some_iff.mp hstep
    obtain ⟨hholder, rfl⟩ := Guarded.lock_eq_some.mp hlock
    apply h.pass ht
    · rw [hthread]
      rfl
    · exact h.serial.lock hlock
    · exact List.append_nil _
    · intro t' ht'
      rcases eq_or_ne t' t with rfl | hne
      · rfl
      · rw [threads_setThread_of_ne hne] at ht'
        cases hholder.symm.trans (h.copying t' ht')
  · cases hstep

theorem Kept.exec (h : s.Kept c memory threads)
    (hstep : s.step c (.exec t) = some s') :
  s'.Kept c memory threads
  := by
  rw [Server.step] at hstep
  split at hstep
  · rename_i todo hthread
    obtain ⟨stats, hnext, rfl⟩ := Option.map_eq_some_iff.mp hstep
    obtain ⟨entry, rest, hholder, -⟩ := Guarded.next_eq_some hnext
    constructor
    case serial => exact h.serial.next hnext
    case entered => exact (Guarded.entered_next hnext).trans h.entered
    case counted => exact h.counted
    case todo => exact h.todo
    case copying =>
      intro t' ht'
      cases hholder.symm.trans (h.copying t' ht')
    case responses => exact h.responses
  · cases hstep

theorem Kept.unlock (h : s.Kept c memory threads) (ht : t < threads)
    (hstep : s.step c (.unlock t) = some s') :
  s'.Kept c memory threads
  := by
  have hpass : ∀ {todo : List Count} {stats : Guarded ℕ (Counter × UInt64) Counter StatsData},
      todo = (s.threads t).todo → s.stats.unlock t = some stats →
      Kept c memory threads { s.setThread t (.serving todo) with stats := stats } := by
    intro todo stats htodo hunlock
    obtain ⟨hholder, -⟩ := Guarded.unlock_eq_some.mp hunlock
    have hthread : (Thread.serving todo).todo = (s.threads t).todo := htodo
    apply h.pass ht hthread (h.serial.unlock hunlock) (Guarded.entered_unlock hunlock)
    intro t' ht'
    obtain ⟨hne, hcopying⟩ := h.copying_setThread (by simp) t' ht'
    obtain ⟨rfl, -⟩ := Prod.mk.inj (Option.some.inj (hholder.symm.trans hcopying))
    exact absurd rfl hne
  rw [Server.step] at hstep
  split at hstep
  · rename_i todo hthread
    obtain ⟨stats, hunlock, rfl⟩ := Option.map_eq_some_iff.mp hstep
    apply hpass _ hunlock
    rw [hthread]
    rfl
  · rename_i hthread
    obtain ⟨stats, hunlock, rfl⟩ := Option.map_eq_some_iff.mp hstep
    apply hpass _ hunlock
    rw [hthread]
    rfl
  · cases hstep

theorem Kept.step (h : s.Kept c memory threads) (hc : c.Sound n) (hvalid : Valid n threads c s a)
    (hstep : s.step c a = some s') :
  s'.Kept c memory threads
  := by
  obtain ⟨ht, hrequest⟩ := hvalid
  cases a with
  | request t r =>
      obtain ⟨i, hi, hconfigs⟩ := hrequest t r rfl
      rw [Server.step] at hstep
      split at hstep
      · rename_i hthread
        exact h.request hc hi hconfigs ht hthread hstep
      · cases hstep
  | lock t obtained => exact h.lock ht hstep
  | copy t => exact h.copy ht hstep
  | exec t => exact h.exec hstep
  | unlock t => exact h.unlock ht hstep

/-- In every run, nothing undefined happens. -/
theorem Kept.failure_eq_none (h : s.Kept c memory threads) (hc : c.Sound n) :
  s.stats.failure = none
  := by
  apply Option.eq_none_iff_forall_ne_some.mpr
  intro counter hfailure
  obtain ⟨entry, rest, hpending, hexec⟩ := h.serial.failure counter hfailure
  obtain ⟨done, hentered, -⟩ := h.serial.value
  have hmem : entry ∈ s.counted.flatMap Count.entries := by
    rw [← h.entered, hentered, hpending]
    simp
  obtain ⟨count, hcount, hentry⟩ := List.mem_flatMap.mp hmem
  have hupTo : entry.1.upTo maxZoomServer c.layerCount = true := by
    have hle := hc.le_max
    have hrange := (h.counted count hcount).upTo entry hentry
    revert hrange
    cases entry.1 <;> simp only [Counter.upTo, decide_eq_true_eq, imp_self] <;> omega
  rw [TileModule.exec, if_pos hupTo] at hexec
  cases hexec

/-- When no statement is left, the counters are those after everything that has been counted. -/
theorem Kept.value (h : s.Kept c memory threads) (hpending : s.stats.pending = []) :
  s.stats.value = Tally.post (postConfig c.layerCount c.globalMaxZoom memory)
    (s.counted.flatMap Count.entries)
  := by
  rw [← h.entered]
  exact foldlM_exec (h.serial.foldlM_entered hpending)

/-- The totals are then the sums. -/
theorem Kept.balanced (h : s.Kept c memory threads) (hc : c.Sound n)
    (hpending : s.stats.pending = []) :
  Balanced c.globalMaxZoom c.layerCount s.stats.value
  := by
  apply balanced_of_balance
  intro S T hbalance
  rw [h.value hpending]
  apply Tally.sum_post_eq (hbalance.postConfig hc.nonneg memory)
  apply Tally.amount_flatMap
  exact fun count hcount => hbalance.amount (h.counted count hcount)

/-- When everything has been counted and nothing has been lost, a counter for responses is the
number of responses for which it stands. -/
theorem Kept.exact (h : s.Kept c memory threads) (hlost : s.lost = [])
    (hidle : ∀ t < threads, s.threads t = .serving []) (hpending : s.stats.pending = [])
    (status : Status) :
  s.stats.value status.counter =
    UInt64.ofNat (tally status.counter (s.responses.filterMap Response.counted))
  := by
  have hzero : postConfig c.layerCount c.globalMaxZoom memory status.counter = 0 := by
    cases status <;> rfl
  have huncounted : s.uncounted threads status.counter = 0 := by
    apply Finset.sum_eq_zero
    intro t ht
    rw [hidle t (Finset.mem_range.mp ht)]
    rfl
  have hresponses := h.responses status.counter
  rw [hlost, huncounted] at hresponses
  rw [h.value hpending, Tally.post_apply, hzero, amount_counter, hresponses]
  exact zero_add _

/-- A server with one layer. -/
def sampleDirectives : List (ℕ × Directive) :=
  [(0, .addTileConfig [Bytes.ofString "/osm/", Bytes.ofString "osm"])]

/-- A request for a current tile, to a server with these layers. -/
def sampleRequest (configs : List TileConfigRec) : TileRequest where
  conf := {
    veryOldThreshold := 0
    cacheExtendedHostname := Bytes.ofString "tiles"
    cacheDurationLastModifiedFactor := .finite 0
    cacheDurationDirty := 900
    cacheDurationMax := 604800
    cacheExtendedDuration := 3600
    enableBulkMode := false
    enableGlobalStats := true
    enableTileThrottling := false
    maxLoadMissing := 50
    maxLoadOld := 16
    mincachetime := fun _ => 0 }
  configs := configs
  locals := zeroLocals
  init := ⟨some true, true⟩
  uri := Bytes.ofString "/osm/3/5/2.png"
  userdata := none
  requestTime := 0
  rounding := FloatRounding.exact
  hook := ⟨⟨535, 0, 0, 0, 0⟩, true, .finite 0, false, ⟨-1, 0, 0, 0, 0⟩⟩
  serve := {
    cors := ⟨none, false, false, none⟩
    acceptEncoding := none
    hostname := Bytes.ofString "tiles"
    allocated := true
    read := ⟨3, Bytes.ofString "PNG", some 0, none⟩
    rand := ⟨0, zero_lt_randMax⟩
    duration := 7
    md5 := []
    conditions := .met }

/-- The response is counted, and then the counters are copied. -/
def sampleSteps : List ServerStep :=
  [.lock 0 true, .exec 0, .unlock 0, .lock 0 true, .exec 0, .exec 0, .exec 0, .exec 0, .unlock 0,
    .lock 0 true, .exec 0, .exec 0, .exec 0, .unlock 0, .copy 0]

/-- The steps are those of the first thread, and no requests. -/
def sampleValid (_ : Server) : ServerStep → Bool
  | .request _ _ => false
  | a => a.thread = 0

theorem valid_of_sampleValid {c : Configuration} {s : Server} {a : ServerStep}
    (h : sampleValid s a = true) :
  Valid 1 1 c s a
  := by
  cases a with
  | request t r => cases h
  | lock t obtained | copy t | exec t | unlock t =>
      obtain rfl := of_decide_eq_true h
      exact ⟨Nat.zero_lt_one, by simp⟩

/-- The request is one to the main server. -/
theorem valid_sampleRequest {c : Configuration} {s : Server} :
  Valid 1 1 c s (.request 0 (sampleRequest (c.configs 0)))
  := by
  refine ⟨Nat.zero_lt_one, ?_⟩
  rintro _ _ ⟨⟩
  exact ⟨0, Nat.zero_lt_one, rfl⟩

/-- The thread is about to copy. -/
def isCopying : Thread → Bool
  | .copying => true
  | _ => false

/-- The servers after the directives. -/
def sampleConfiguration : Option Configuration :=
  run (Configuration.step 1) (fun _ _ => true)
    (Configuration.init (Bytes.ofString "/tiles") fun _ => none) sampleDirectives

end Server

end TileModule
