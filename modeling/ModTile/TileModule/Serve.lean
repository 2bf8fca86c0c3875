import ModTile.Rounding
import ModTile.StoreFileMap
import ModTile.TileModule.Coordinates
import ModTile.TileModule.DelayTopUps

/-!
# Serving a tile

`tile_storage_hook` and `tile_handler_serve` of `mod_tile.c`, for a request whose path has been
accepted.  The hook looks at the state of the tile, and may refuse the request, have the tile
rendered, or leave an old tile as it is.  The handler reads the tile and answers with it, and says
how long it may be cached.

What the store, the render daemon and the server answer is given by `HookEvents` and `ServeEvents`.
On their way the two functions call those that count responses, which are told by `Count` in the
order of the calls.
-/

namespace TileModule

open FloatRounding (truncate)
open StoreFile (TileStat TileRead)
open DelayPool (Double aprUsecPerSec)

/-- The values that hooks and handlers return. -/
inductive Status where
  | ok
  | declined
  | done
  | httpNotModified
  | httpForbidden
  | httpNotFound
  | httpInternalServerError
  | httpServiceUnavailable
  | other (code : ℕ)
  deriving DecidableEq

/-- `enum tileState`. -/
inductive TileState where
  | tileUnknown
  | tileMissing
  | tileOld
  | tileVeryOld
  | tileCurrent
  deriving DecidableEq

/-- The arguments of `incFreshCounter`. -/
inductive Freshness where
  | fresh
  | old
  | freshRender
  | oldRender
  | veryOldRender
  | veryOld
  deriving DecidableEq

/-- A call of `incRespCounter`, with the zoom level of the command if there is one, of
`incFreshCounter` or of `incTimingCounter`. -/
inductive Count where
  | resp (resp : Status) (z : Option Int32) (layerNumber : ℕ)
  | fresh (status : Freshness)
  | timing (duration : UInt64) (z : Int32)
  deriving DecidableEq

/-- The part of `tile_server_conf` that is read when a tile is served. -/
structure ServeConf where
  veryOldThreshold : ℤ
  cacheExtendedHostname : List UInt8
  cacheDurationLastModifiedFactor : Double
  cacheDurationDirty : ℤ
  cacheDurationMax : ℤ
  cacheExtendedDuration : ℤ
  enableBulkMode : Bool
  enableGlobalStats : Bool
  enableTileThrottling : Bool
  maxLoadMissing : ℤ
  maxLoadOld : ℤ
  mincachetime : ℕ → ℤ

/-- `tile_state`: the state of a tile, for a request at a time in microseconds. -/
def tileState (conf : ServeConf) (requestTime : ℤ) (stat : TileStat) : TileState :=
  if stat.size < 0 then .tileMissing
  else if stat.expired ≠ 0 then
    if requestTime - stat.mtime * aprUsecPerSec < conf.veryOldThreshold then .tileOld
    else .tileVeryOld
  else .tileCurrent

/-! ### The hook -/

/-- What the hook meets: the state of the tile in the store, whether the client may go on, the load
of the machine, whether the tile is rendered in time, and its state in the store after that. -/
structure HookEvents where
  stat : TileStat
  allowed : Bool
  load : Double
  rendered : Bool
  statAfter : TileStat

/-- What the hook returns and leaves for the handler: the state of the tile and its modification
time in microseconds; and what it does on its way: with which value of `renderImmediately` it calls
`request_tile`, and what it counts. -/
structure HookResult where
  status : Status
  tileState : TileState
  mtime : ℤ
  asked : Option ℤ
  counts : List Count

/-- The end of the hook: a rendering with the given priority is asked for. -/
def hookRender (conf : ServeConf) (requestTime : ℤ) (z : Int32) (layerNumber : ℕ)
    (state : TileState) (renderPrio : ℤ) (e : HookEvents) : HookResult :=
  let mtime := e.stat.mtime * aprUsecPerSec
  if e.rendered then
    ⟨.ok, tileState conf requestTime e.statAfter, e.statAfter.mtime * aprUsecPerSec,
      some renderPrio, [.fresh .freshRender]⟩
  else if state = .tileOld then ⟨.ok, state, mtime, some renderPrio, [.fresh .oldRender]⟩
  else if state = .tileVeryOld then
    ⟨.ok, state, mtime, some renderPrio, [.fresh .veryOldRender]⟩
  else
    ⟨.httpNotFound, state, mtime, some renderPrio, [.resp .httpNotFound (some z) layerNumber]⟩

/-- `tile_storage_hook`, for a request whose tile has not been looked at yet. -/
def tileStorageHook (conf : ServeConf) (handler : Option Handler) (rdata : TileRequestData)
    (requestTime : ℤ) (e : HookEvents) : HookResult :=
  match handler with
  | some .tileStatus | some .tileDirty | some .tileModStats | some .tileJson =>
      ⟨.ok, .tileUnknown, 0, none, []⟩
  | some .tileServe =>
      match rdata.cmd with
      | none => ⟨.declined, .tileUnknown, 0, none, []⟩
      | some cmd =>
          let state := tileState conf requestTime e.stat
          let mtime := e.stat.mtime * aprUsecPerSec
          if conf.enableTileThrottling && !e.allowed then
            ⟨.httpServiceUnavailable, state, mtime, none,
              [.resp .httpServiceUnavailable (some cmd.z) rdata.layerNumber]⟩
          else
            match state with
            | .tileCurrent => ⟨.ok, state, mtime, none, [.fresh .fresh]⟩
            | .tileOld | .tileVeryOld =>
                if conf.enableBulkMode then ⟨.ok, state, mtime, none, []⟩
                else if e.load.gt conf.maxLoadOld then
                  ⟨.ok, state, mtime, some 0,
                    [.fresh (if state = .tileVeryOld then .veryOld else .old)]⟩
                else
                  hookRender conf requestTime cmd.z rdata.layerNumber state
                    (if state = .tileVeryOld then 2 else 1) e
            | .tileMissing =>
                if e.load.gt conf.maxLoadMissing then
                  ⟨.httpNotFound, state, mtime, some 0,
                    [.resp .httpNotFound (some cmd.z) rdata.layerNumber]⟩
                else hookRender conf requestTime cmd.z rdata.layerNumber state 3 e
            | .tileUnknown => ⟨.httpInternalServerError, state, mtime, none, []⟩
  | _ => ⟨.declined, .tileUnknown, 0, none, []⟩

/-! ### The headers -/

/-- A header of a response. -/
abbrev Header : Type := String × List UInt8

/-- The headers of a request for `add_cors`: the origin, whether the method is `OPTIONS`, whether
`Access-Control-Request-Method` is there, and `Access-Control-Request-Headers`. -/
structure CorsRequest where
  origin : Option (List UInt8)
  options : Bool
  requestMethod : Bool
  requestHeaders : Option (List UInt8)

/-- `add_cors`: what is returned, and the headers that are set. -/
def addCors (cors : List UInt8) (r : CorsRequest) : Status × List Header :=
  match r.origin with
  | none => (.done, [])
  | some origin =>
      if cors = Bytes.ofString "*" ∨ (Bytes.splitFirst origin cors).isSome then
        let allowed : List Header :=
          if cors = Bytes.ofString "*" then [("Access-Control-Allow-Origin", cors)]
          else [("Access-Control-Allow-Origin", origin), ("Vary", Bytes.ofString "Origin")]
        if r.options && r.requestMethod then
          (.ok, allowed ++
            (match r.requestHeaders with
              | none => []
              | some headers => [("Access-Control-Allow-Headers", headers)]) ++
            [("Access-Control-Max-Age", Bytes.signed 604800)])
        else (.done, allowed)
      else (.httpForbidden, [])

/-- The results of `rand`, from zero to `RAND_MAX`. -/
abbrev Random : Type := Fin (2 ^ 31)

/-- There is a result of `rand`. -/
theorem zero_lt_randMax :
  0 < 2 ^ 31
  := by
  decide

/-- A part of `q` by chance, `q * (rand() / (RAND_MAX + 1.0))`, as an integer. -/
def holdoff (p : FloatRounding) (q : ℚ) (rand : Random) : ℤ :=
  truncate (p.round (q * (rand.val / 2 ^ 31)))

/-- The conversion to an `int`, which is undefined for what does not fit. -/
def doubleToInt (x : ℚ) : Option ℤ :=
  if -2 ^ 31 ≤ truncate x ∧ truncate x < 2 ^ 31 then some (truncate x) else none

/-- The seconds since the last rendering, times the factor for them. -/
def lastModified (p : FloatRounding) (conf : ServeConf) (requestTime mtime : ℤ) : Option ℤ :=
  match conf.cacheDurationLastModifiedFactor with
  | .finite factor =>
      doubleToInt (p.round (((requestTime - mtime).tdiv aprUsecPerSec : ℤ) * factor))
  | _ => none

/-- `add_expiry`: the number of seconds for which the tile may be cached, if the conversions are
defined. -/
def addExpiry (p : FloatRounding) (conf : ServeConf) (maxzoom z : Int32) (hostname : List UInt8)
    (requestTime mtime : ℤ) (state : TileState) (rand : Random) : Option ℤ :=
  if conf.cacheExtendedHostname ≠ [] ∧
      (Bytes.splitFirst conf.cacheExtendedHostname hostname).isSome then
    some conf.cacheExtendedDuration
  else if state = .tileOld ∨ state = .tileVeryOld then
    some (min (conf.cacheDurationDirty + holdoff p (conf.cacheDurationDirty / 2) rand)
      conf.cacheDurationMax)
  else
    let minCache := if z > maxzoom then 0 else conf.mincachetime z.toInt.toNat
    (lastModified p conf requestTime mtime).map fun lastModified =>
      min (max minCache lastModified + holdoff p (3 * 60 * 60) rand) conf.cacheDurationMax

/-! ### The handler -/

/-- `MAX_SIZE`: the size of the buffer for a tile. -/
def maxSize : ℕ := 1024 * 1024

/-- The results of `ap_meets_conditions`. -/
inductive Conditions where
  | met
  | notModified
  | preconditionFailed
  deriving DecidableEq

/-- The status for a result. -/
def Conditions.status : Conditions → Status
  | met => .ok
  | notModified => .httpNotModified
  | preconditionFailed => .other 412

/-- What is sent for a result. -/
def Conditions.body : Conditions → List UInt8 → Option (List UInt8)
  | met, tile => some tile
  | _, _ => none

/-- What the handler meets: the headers and the host name of the request, whether there is memory
for the buffer, what is read from the store, how long that takes, the hash of the tile, and the
result of `ap_meets_conditions`. -/
structure ServeEvents where
  cors : CorsRequest
  acceptEncoding : Option (List UInt8)
  hostname : List UInt8
  allocated : Bool
  read : TileRead
  rand : Random
  duration : UInt64
  md5 : List UInt8
  conditions : Conditions

/-- What the handler returns, what it sends, the headers that it sets, and what it counts. -/
structure Response where
  status : Status
  body : Option (List UInt8)
  headers : List Header
  counts : List Count

/-- The headers of a response with a tile. -/
def tileHeaders (config : TileConfigRec) (e : ServeEvents) (maxAge : ℤ) : List Header :=
  (if e.read.compressed.getD 0 ≠ 0 ∧
      e.acceptEncoding.any fun accepted =>
        (Bytes.splitFirst (Bytes.ofString "gzip") accepted).isSome then
    [("Content-Encoding", Bytes.ofString "gzip")]
  else []) ++
  [("ETag", Bytes.ofString "\"" ++ e.md5 ++ Bytes.ofString "\""),
    ("Content-Type", config.mimeType), ("Content-Length", Bytes.signed e.read.ret),
    ("Cache-Control", Bytes.ofString "max-age=" ++ Bytes.signed maxAge)]

/-- The part of the handler after the headers for other origins: the tile is read and sent.  There
is no result when a conversion is undefined. -/
def serveRead (p : FloatRounding) (conf : ServeConf) (config : TileConfigRec) (z : Int32)
    (layerNumber : ℕ) (requestTime : ℤ) (hook : HookResult) (headers : List Header)
    (e : ServeEvents) : Option Response :=
  if !e.allocated then
    some ⟨.httpInternalServerError, none, headers,
      [.resp .httpInternalServerError (some z) layerNumber]⟩
  else if e.read.ret > 0 then
    (addExpiry p conf config.maxzoom z e.hostname requestTime hook.mtime hook.tileState e.rand).map
      fun maxAge =>
        { status := e.conditions.status
          body := e.conditions.body (e.read.buf.take e.read.ret.toNat)
          headers := headers ++ tileHeaders config e maxAge
          counts := [.timing e.duration z, .resp e.conditions.status (some z) layerNumber] }
  else some ⟨.declined, none, headers, [.resp .httpNotFound (some z) layerNumber]⟩

/-- `tile_handler_serve`, for a layer and after the hook. -/
def tileHandlerServe (p : FloatRounding) (conf : ServeConf) (config : TileConfigRec)
    (handler : Option Handler) (rdata : TileRequestData) (requestTime : ℤ) (hook : HookResult)
    (e : ServeEvents) : Option Response :=
  if handler ≠ some .tileServe then some ⟨.declined, none, [], []⟩
  else
    match rdata.cmd with
    | none =>
        some ⟨.httpNotFound, none, [], [.resp .httpNotFound none rdata.layerNumber]⟩
    | some cmd =>
        match config.cors with
        | none => serveRead p conf config cmd.z rdata.layerNumber requestTime hook [] e
        | some cors =>
            match addCors cors e.cors with
            | (.done, headers) =>
                serveRead p conf config cmd.z rdata.layerNumber requestTime hook headers e
            | (status, headers) => some ⟨status, none, headers, []⟩

/-- The response to a request for a tile.  The handler is called when the hook lets the request
pass. -/
def respond (p : FloatRounding) (conf : ServeConf) (config : TileConfigRec)
    (rdata : TileRequestData) (requestTime : ℤ) (e : HookEvents) (e' : ServeEvents) :
    Option Response :=
  let hook := tileStorageHook conf (some .tileServe) rdata requestTime e
  if hook.status = .ok then
    (tileHandlerServe p conf config (some .tileServe) rdata requestTime hook e').map fun r =>
      { r with counts := hook.counts ++ r.counts }
  else some ⟨hook.status, none, [], hook.counts⟩

/-! ### What the hook does -/

variable {p : FloatRounding} {conf : ServeConf} {config : TileConfigRec} {rdata : TileRequestData}
  {cmd : Protocol} {requestTime : ℤ} {e : HookEvents} {e' : ServeEvents} {r : Response}

/-- What the hook can do with a request for a tile: refuse it because of the client, refuse it
because the tile is missing, or let it pass, with at most one count for the freshness. -/
inductive HookCase (conf : ServeConf) (requestTime : ℤ) (z : Int32) (layerNumber : ℕ)
    (e : HookEvents) (hook : HookResult) : Prop where
  | refused (throttled : conf.enableTileThrottling = true) (allowed : e.allowed = false)
      (status : hook.status = .httpServiceUnavailable)
      (counts : hook.counts = [.resp .httpServiceUnavailable (some z) layerNumber])
  | missing (state : tileState conf requestTime e.stat = .tileMissing)
      (late : e.load.gt conf.maxLoadMissing = true ∨ e.rendered = false)
      (status : hook.status = .httpNotFound)
      (counts : hook.counts = [.resp .httpNotFound (some z) layerNumber])
  | passed (status : hook.status = .ok) (fresh : List Freshness) (length : fresh.length ≤ 1)
      (counts : hook.counts = fresh.map Count.fresh)
      (state : hook.tileState = tileState conf requestTime e.stat ∧
          hook.mtime = e.stat.mtime * aprUsecPerSec ∧
          tileState conf requestTime e.stat ≠ .tileMissing ∨
        e.rendered = true ∧ hook.tileState = tileState conf requestTime e.statAfter ∧
          hook.mtime = e.statAfter.mtime * aprUsecPerSec)

theorem tileState_ne_unknown (stat : TileStat) :
  tileState conf requestTime stat ≠ .tileUnknown
  := by
  rw [tileState]
  split_ifs <;> simp

/-- The end of the hook is one of these cases. -/
theorem hookRender_cases {z : Int32} {layerNumber : ℕ} {state : TileState} {renderPrio : ℤ}
    (hstate : tileState conf requestTime e.stat = state) (hcurrent : state ≠ .tileCurrent) :
  HookCase conf requestTime z layerNumber e
    (hookRender conf requestTime z layerNumber state renderPrio e)
  := by
  have hunknown : tileState conf requestTime e.stat ≠ .tileUnknown := tileState_ne_unknown e.stat
  subst hstate
  rw [hookRender]
  split_ifs with hrendered hold hveryOld
  · exact .passed rfl [.freshRender] le_rfl rfl (.inr ⟨hrendered, rfl, rfl⟩)
  · exact .passed rfl [.oldRender] le_rfl rfl (.inl ⟨rfl, rfl, by simp [hold]⟩)
  · exact .passed rfl [.veryOldRender] le_rfl rfl (.inl ⟨rfl, rfl, by simp [hveryOld]⟩)
  · have hmissing : tileState conf requestTime e.stat = .tileMissing := by
      cases hcase : tileState conf requestTime e.stat <;> simp_all
    exact .missing hmissing (.inr (Bool.eq_false_of_not_eq_true hrendered)) rfl rfl

/-- The part of the hook for a tile that is there but not current. -/
theorem hook_outdated_cases {z : Int32} {layerNumber : ℕ} {state : TileState} {status : Freshness}
    {renderPrio : ℤ} (hstate : tileState conf requestTime e.stat = state)
    (hcurrent : state ≠ .tileCurrent) (hmissing : state ≠ .tileMissing) :
  HookCase conf requestTime z layerNumber e
    (if conf.enableBulkMode then ⟨.ok, state, e.stat.mtime * aprUsecPerSec, none, []⟩
      else if e.load.gt conf.maxLoadOld then
        ⟨.ok, state, e.stat.mtime * aprUsecPerSec, some 0, [.fresh status]⟩
      else hookRender conf requestTime z layerNumber state renderPrio e)
  := by
  have hleft : tileState conf requestTime e.stat ≠ .tileMissing := by
    rw [hstate]
    exact hmissing
  split_ifs
  · exact .passed rfl [] (Nat.zero_le 1) rfl (.inl ⟨hstate.symm, rfl, hleft⟩)
  · exact .passed rfl [status] le_rfl rfl (.inl ⟨hstate.symm, rfl, hleft⟩)
  · exact hookRender_cases hstate hcurrent

/-- The hook is one of these cases for every request for a tile. -/
theorem tileStorageHook_cases (hcmd : rdata.cmd = some cmd) :
  HookCase conf requestTime cmd.z rdata.layerNumber e
    (tileStorageHook conf (some .tileServe) rdata requestTime e)
  := by
  rw [tileStorageHook, hcmd]
  dsimp only
  by_cases hthrottle : (conf.enableTileThrottling && !e.allowed) = true
  · rw [if_pos hthrottle]
    simp only [Bool.and_eq_true, Bool.not_eq_true'] at hthrottle
    exact .refused hthrottle.1 hthrottle.2 rfl rfl
  · rw [if_neg hthrottle]
    cases hstate : tileState conf requestTime e.stat with
    | tileUnknown => exact absurd hstate (tileState_ne_unknown e.stat)
    | tileCurrent =>
        exact .passed rfl [.fresh] le_rfl rfl (.inl ⟨hstate.symm, rfl, by simp [hstate]⟩)
    | tileMissing =>
        dsimp only
        split_ifs with hload
        · exact .missing hstate (.inl hload) rfl rfl
        · exact hookRender_cases hstate (by simp)
    | tileOld => exact hook_outdated_cases hstate (by simp) (by simp)
    | tileVeryOld => exact hook_outdated_cases hstate (by simp) (by simp)

/-! ### What the handler does -/

/-- What the handler can do: answer for another origin, have no memory, find no tile, or find one
and answer as the conditions of the request say. -/
inductive ServeCase (p : FloatRounding) (conf : ServeConf) (config : TileConfigRec) (z : Int32)
    (layerNumber : ℕ) (requestTime : ℤ) (hook : HookResult) (e : ServeEvents) (r : Response) :
    Prop where
  | cors (policy : config.cors.isSome) (status : r.status = .ok ∨ r.status = .httpForbidden)
      (body : r.body = none) (counts : r.counts = [])
  | noMemory (allocated : e.allocated = false) (status : r.status = .httpInternalServerError)
      (body : r.body = none)
      (counts : r.counts = [.resp .httpInternalServerError (some z) layerNumber])
  | unread (allocated : e.allocated = true) (read : e.read.ret ≤ 0) (status : r.status = .declined)
      (body : r.body = none) (counts : r.counts = [.resp .httpNotFound (some z) layerNumber])
  | read (allocated : e.allocated = true) (read : 0 < e.read.ret) (maxAge : ℤ)
      (expiry : addExpiry p conf config.maxzoom z e.hostname requestTime hook.mtime hook.tileState
        e.rand = some maxAge)
      (status : r.status = e.conditions.status)
      (body : r.body = e.conditions.body (e.read.buf.take e.read.ret.toNat))
      (headers : tileHeaders config e maxAge <:+ r.headers)
      (counts : r.counts =
        [.timing e.duration z, .resp e.conditions.status (some z) layerNumber])

/-- The part of the handler that reads the tile is one of these cases. -/
theorem serveRead_cases {z : Int32} {layerNumber : ℕ} {hook : HookResult} {headers : List Header}
    (h : serveRead p conf config z layerNumber requestTime hook headers e' = some r) :
  ServeCase p conf config z layerNumber requestTime hook e' r
  := by
  rw [serveRead] at h
  split_ifs at h with hallocated hread
  · obtain rfl := Option.some.inj h
    exact .noMemory (by simpa using hallocated) rfl rfl rfl
  · obtain ⟨maxAge, hexpiry, rfl⟩ := Option.map_eq_some_iff.mp h
    exact .read (by simpa using hallocated) hread maxAge hexpiry rfl rfl
      (List.suffix_append _ _) rfl
  · obtain rfl := Option.some.inj h
    exact .unread (by simpa using hallocated) (by omega) rfl rfl rfl

theorem addCors_cases (cors : List UInt8) (request : CorsRequest) :
  (addCors cors request).1 = .done ∨ (addCors cors request).1 = .ok ∨
    (addCors cors request).1 = .httpForbidden
  := by
  rw [addCors]
  split
  · exact .inl rfl
  · split_ifs
    · exact .inr (.inl rfl)
    · exact .inl rfl
    · exact .inr (.inl rfl)
    · exact .inl rfl
    · exact .inr (.inr rfl)

/-- The handler is one of these cases for every request for a tile. -/
theorem tileHandlerServe_cases {hook : HookResult} (hcmd : rdata.cmd = some cmd)
    (h : tileHandlerServe p conf config (some .tileServe) rdata requestTime hook e' = some r) :
  ServeCase p conf config cmd.z rdata.layerNumber requestTime hook e' r
  := by
  rw [tileHandlerServe, if_neg (not_not.mpr rfl), hcmd] at h
  dsimp only at h
  cases hcors : config.cors with
  | none =>
      rw [hcors] at h
      exact serveRead_cases h
  | some cors =>
      rw [hcors] at h
      dsimp only at h
      have hcases := addCors_cases cors e'.cors
      rcases hresult : addCors cors e'.cors with ⟨status, headers⟩
      rw [hresult] at h hcases
      have hpolicy : config.cors.isSome := by
        rw [hcors]
        rfl
      rcases hcases with rfl | rfl | rfl
      · exact serveRead_cases h
      · obtain rfl := Option.some.inj h
        exact .cors hpolicy (.inl rfl) rfl rfl
      · obtain rfl := Option.some.inj h
        exact .cors hpolicy (.inr rfl) rfl rfl

/-! ### What is counted -/

/-- The status for which a response is counted.  An answer for another origin is not counted, and a
tile that cannot be read is counted as one that is not found. -/
def Response.counted (r : Response) : Option Status :=
  match r.status with
  | .ok => if r.body.isSome then some .ok else none
  | .httpForbidden => none
  | .declined => some .httpNotFound
  | status => some status

/-- The status for which a count is one of responses. -/
def Count.status : Count → Option Status
  | .resp status _ _ => some status
  | _ => none

/-- The zoom level and the layer of a count are those of the request. -/
def Count.IsOf (z : Int32) (layerNumber : ℕ) : Count → Prop
  | .resp _ z' layerNumber' => z' = some z ∧ layerNumber' = layerNumber
  | .fresh _ => True
  | .timing _ z' => z' = z

theorem filterMap_status_fresh (fresh : List Freshness) (counts : List Count) :
  ((fresh.map Count.fresh) ++ counts).filterMap Count.status = counts.filterMap Count.status
  := by
  rw [List.filterMap_append, List.filterMap_map]
  have hnone : Count.status ∘ Count.fresh = fun _ => none := rfl
  rw [hnone, List.filterMap_none, List.nil_append]

/-- The handler counts a response at most once, for its status. -/
theorem ServeCase.counted {z : Int32} {layerNumber : ℕ} {hook : HookResult}
    (h : ServeCase p conf config z layerNumber requestTime hook e' r) :
  r.counts.filterMap Count.status = r.counted.toList ∧ ∀ c ∈ r.counts, c.IsOf z layerNumber
  := by
  cases h with
  | cors _ hstatus hbody hcounts =>
      rw [hcounts, Response.counted, hbody]
      rcases hstatus with hstatus | hstatus
      · rw [hstatus]
        exact ⟨rfl, by simp⟩
      · rw [hstatus]
        exact ⟨rfl, by simp⟩
  | noMemory _ hstatus hbody hcounts =>
      rw [hcounts, Response.counted, hstatus]
      exact ⟨rfl, by simp [Count.IsOf]⟩
  | unread _ _ hstatus hbody hcounts =>
      rw [hcounts, Response.counted, hstatus]
      exact ⟨rfl, by simp [Count.IsOf]⟩
  | read _ _ maxAge _ hstatus hbody _ hcounts =>
      rw [hcounts, Response.counted, hstatus, hbody]
      cases e'.conditions with
      | met => exact ⟨rfl, by simp [Count.IsOf]⟩
      | notModified => exact ⟨rfl, by simp [Count.IsOf]⟩
      | preconditionFailed => exact ⟨rfl, by simp [Count.IsOf]⟩

/-- A response to a request for a tile is counted at most once, for its status. -/
theorem respond_counts (hcmd : rdata.cmd = some cmd)
    (h : respond p conf config rdata requestTime e e' = some r) :
  r.counts.filterMap Count.status = r.counted.toList ∧
    ∀ c ∈ r.counts, c.IsOf cmd.z rdata.layerNumber
  := by
  have hhook : HookCase conf requestTime cmd.z rdata.layerNumber e
      (tileStorageHook conf (some .tileServe) rdata requestTime e) := tileStorageHook_cases hcmd
  rw [respond] at h
  cases hhook with
  | refused _ _ hstatus hcounts =>
      rw [if_neg (by rw [hstatus]; simp), hstatus, hcounts] at h
      obtain rfl := Option.some.inj h
      exact ⟨rfl, by simp [Count.IsOf]⟩
  | missing _ _ hstatus hcounts =>
      rw [if_neg (by rw [hstatus]; simp), hstatus, hcounts] at h
      obtain rfl := Option.some.inj h
      exact ⟨rfl, by simp [Count.IsOf]⟩
  | passed hstatus fresh _ hcounts _ =>
      rw [if_pos hstatus, hcounts] at h
      obtain ⟨r', hr', rfl⟩ := Option.map_eq_some_iff.mp h
      obtain ⟨hcounted, hof⟩ := (tileHandlerServe_cases hcmd hr').counted
      dsimp only
      rw [filterMap_status_fresh, List.forall_mem_append, List.forall_mem_map]
      exact ⟨hcounted, fun _ _ => trivial, hof⟩

end TileModule
