import ModTile.Bytes.Decimal
import ModTile.ObjectStore
import ModTile.Protocol.Basic
import ModTile.Transition

/-!
# The read-only HTTP proxy store

The functions of `store_ro_http_proxy.c`.  A context keeps the tile that it has fetched last, with
its coordinates and its map, and answers from it while the same tile is asked for.

The fields of the kept tile are set one by one: a tile that is missing upstream leaves the time
of the tile before it, and so does a tile that comes without a time.  A context that has nothing
to keep has the coordinates of no tile, but they are compared like any others.  The name of the
map is cut to the size of its array.
-/

open Transition

namespace StoreHttpProxy

open ObjectStore (StatInfo)

/-- A tile of a map. -/
structure Tile where
  xmlconfig : List UInt8
  x : Int32
  y : Int32
  z : Int32
  /-- A name is a C string. -/
  nonzero : 0 ∉ xmlconfig
  deriving DecidableEq

/-- The body of a response, which is in memory. -/
abbrev Body : Type := {body : List UInt8 // body.length < 2 ^ 63}

/-- What happens when an address is fetched: there is no memory for the address, the transfer
fails, the code cannot be had, or there is a response with a code, a body and, if it can be had,
a value for the time of the file. -/
inductive Upstream where
  | noMemory
  | failed
  | noCode
  | response (code : ℤ) (body : Body) (filemtime : Option Int64)

/-- `struct ro_http_proxy_tile_cache`.  The null pointer for the tile is an empty one. -/
structure Cache where
  stStat : StatInfo
  tile : List UInt8
  x : Int32
  y : Int32
  z : Int32
  xmlname : XmlconfigArray
  deriving DecidableEq

/-- The address of a tile. -/
def xyzToStoragekey (baseurl : List UInt8) (q : Tile) : List UInt8 :=
  (Bytes.ofString "http://" ++ baseurl ++ Bytes.ofString "/" ++ Bytes.signed q.z.toInt ++
    Bytes.ofString "/" ++ Bytes.signed q.x.toInt ++ Bytes.ofString "/" ++
    Bytes.signed q.y.toInt ++ Bytes.ofString ".png").take (pathMax - 2)

/-- The cache of a new context, in memory with the given content. -/
def Cache.init (stStat : StatInfo) (xmlname : XmlconfigArray) : Cache where
  stStat := stStat
  tile := []
  x := -1
  y := -1
  z := -1
  xmlname := xmlname.set ⟨0, xmlconfigMax_pos⟩ 0

/-- The cache has the tile. -/
def Cache.Holds (c : Cache) (q : Tile) : Prop :=
  c.x = q.x ∧ c.y = q.y ∧ c.z = q.z ∧ Bytes.cString c.xmlname.toList = q.xmlconfig

instance (c : Cache) (q : Tile) : Decidable (c.Holds q) :=
  inferInstanceAs (Decidable (_ ∧ _ ∧ _ ∧ _))

/-- The cache without coordinates. -/
def Cache.reset (c : Cache) : Cache :=
  { c with x := -1, y := -1, z := -1 }

/-- The cache with the coordinates and the name of a tile. -/
def Cache.setTile (c : Cache) (q : Tile) : Cache :=
  { c with
    x := q.x
    y := q.y
    z := q.z
    xmlname := Bytes.storeString (n := 40) q.xmlconfig c.xmlname }

/-- The cache with the body of a tile, and with its time if there is one. -/
def Cache.setFound (c : Cache) (body : Body) (filemtime : Option Int64) : Cache :=
  { c with
    tile := body
    stStat := { c.stStat with
      size := Int64.ofNat body.1.length
      expired := 0
      mtime :=
        match filemtime with
        | some t => if 0 ≤ t then t else c.stStat.mtime
        | none => c.stStat.mtime
      atime := 0 } }

/-- The cache for a tile that is missing. -/
def Cache.setMissing (c : Cache) : Cache :=
  { c with tile := [], stStat := { c.stStat with size := -1, expired := 0 } }

/-- Fetching a tile unless the cache has it: whether that worked, and the cache. -/
def tileRetrieve (baseurl : List UInt8) (c : Cache) (q : Tile)
    (upstream : List UInt8 → Upstream) : Bool × Cache :=
  if c.Holds q then (true, c)
  else
    match upstream (xyzToStoragekey baseurl q) with
    | .noMemory => (false, c)
    | .failed => (false, c.reset)
    | .noCode => (false, c.reset)
    | .response code body filemtime =>
        if code = 200 then (true, (c.setFound body filemtime).setTile q)
        else if code = 404 then (true, c.setMissing.setTile q)
        else (false, c.reset)

/-- What a read returns, and the bytes that it stores. -/
structure TileRead where
  ret : Int32
  data : List UInt8
  deriving DecidableEq

/-- Reading a tile into a buffer of `sz` bytes. -/
def tileRead (baseurl : List UInt8) (c : Cache) (q : Tile) (upstream : List UInt8 → Upstream)
    (sz : ℕ) : TileRead :=
  let (ok, c) := tileRetrieve baseurl c q upstream
  if ok then
    if c.stStat.size < 0 then ⟨-1, []⟩
    else if c.stStat.size.toInt.toNat > sz then ⟨-1, []⟩
    else ⟨c.stStat.size.toInt32, c.tile.take c.stStat.size.toInt.toNat⟩
  else ⟨-1, []⟩

/-- The state of a tile. -/
def tileStat (baseurl : List UInt8) (c : Cache) (q : Tile) (upstream : List UInt8 → Upstream) :
    StatInfo :=
  let (ok, c) := tileRetrieve baseurl c q upstream
  if ok then c.stStat else .missing

/-! ### Fetches of tiles -/

/-- What a successful fetch has found out about a tile. -/
inductive Fetch where
  | found (body : Body) (filemtime : Option Int64)
  | missing
  deriving DecidableEq

namespace Fetch

/-- The body of the tile. -/
def body : Fetch → List UInt8
  | found body _ => body
  | missing => []

/-- The size of the tile. -/
def size : Fetch → Int64
  | found body _ => Int64.ofNat body.1.length
  | missing => -1

/-- The time at which the tile was modified, if the response has said so. -/
def lastModified : Fetch → Option Int64
  | found _ filemtime => filemtime.filter (0 ≤ ·)
  | missing => none

/-- What a read of the tile returns. -/
def read (sz : ℕ) : Fetch → TileRead
  | found body _ =>
      if body.1.length > sz then ⟨-1, []⟩ else ⟨(Int64.ofNat body.1.length).toInt32, body⟩
  | missing => ⟨-1, []⟩

end Fetch

/-- What a call fetches for its tile, if it fetches it and the fetch is successful. -/
def fetched (baseurl : List UInt8) (c : Cache) (q : Tile) (upstream : List UInt8 → Upstream) :
    Option Fetch :=
  if c.Holds q then none
  else
    match upstream (xyzToStoragekey baseurl q) with
    | .response code body filemtime =>
        if code = 200 then some (.found body filemtime)
        else if code = 404 then some .missing
        else none
    | _ => none

/-- A context, and for every tile the most recent successful fetch. -/
structure Context where
  baseurl : List UInt8
  cache : Cache
  last : Tile → Option Fetch

namespace Context

/-- A new context, in memory with the given content. -/
def init (baseurl : List UInt8) (stStat : StatInfo) (xmlname : XmlconfigArray) : Context where
  baseurl := baseurl
  cache := .init stStat xmlname
  last := fun _ => none

/-- The context after a read or a stat of a tile. -/
def after (s : Context) (q : Tile) (upstream : List UInt8 → Upstream) : Context where
  baseurl := s.baseurl
  cache := (tileRetrieve s.baseurl s.cache q upstream).2
  last :=
    match fetched s.baseurl s.cache q upstream with
    | none => s.last
    | some f => Function.update s.last q (some f)

/-- A call for a tile, and what happens upstream. -/
abbrev Call : Type := Tile × (List UInt8 → Upstream)

/-- The step for a call. -/
def step (s : Context) (call : Call) : Option Context :=
  some (s.after call.1 call.2)

end Context

variable {baseurl : List UInt8} {c : Cache} {q q' : Tile} {upstream : List UInt8 → Upstream}
  {f : Fetch} {s : Context}

/-! ### What is kept -/

/-- A tile whose name has room in the array of the cache, and whose coordinates are not those of
a cache with no tile. -/
def Tile.Proper (q : Tile) : Prop :=
  ¬ (q.x = -1 ∧ q.y = -1 ∧ q.z = -1) ∧ q.xmlconfig.length ≤ 40

instance (q : Tile) : Decidable q.Proper :=
  inferInstanceAs (Decidable (_ ∧ _))

/-- The fields of the cache are those of a fetch. -/
structure Fetch.Shown (f : Fetch) (c : Cache) : Prop where
  size : c.stStat.size = f.size
  expired : c.stStat.expired = 0
  tile : c.tile = f.body
  mtime : ∀ t, f.lastModified = some t → c.stStat.mtime = t

/-- The cache after a successful fetch of a tile. -/
def Fetch.keep (f : Fetch) (c : Cache) (q : Tile) : Cache :=
  match f with
  | .found body filemtime => (c.setFound body filemtime).setTile q
  | .missing => c.setMissing.setTile q

/-- The cases of a retrieval: the tile is in the cache, it cannot be fetched, or it is fetched and
kept. -/
theorem tileRetrieve_cases (baseurl : List UInt8) (c : Cache) (q : Tile)
    (upstream : List UInt8 → Upstream) :
  (c.Holds q ∧ tileRetrieve baseurl c q upstream = (true, c) ∧
      fetched baseurl c q upstream = none) ∨
    (fetched baseurl c q upstream = none ∧
      (tileRetrieve baseurl c q upstream = (false, c) ∨
        tileRetrieve baseurl c q upstream = (false, c.reset))) ∨
    ∃ f, fetched baseurl c q upstream = some f ∧
      tileRetrieve baseurl c q upstream = (true, f.keep c q)
  := by
  rw [tileRetrieve, fetched]
  split_ifs with hholds
  · exact Or.inl ⟨hholds, rfl, rfl⟩
  · right
    cases upstream (xyzToStoragekey baseurl q) with
    | noMemory => exact Or.inl ⟨rfl, Or.inl rfl⟩
    | failed => exact Or.inl ⟨rfl, Or.inr rfl⟩
    | noCode => exact Or.inl ⟨rfl, Or.inr rfl⟩
    | response code body filemtime =>
        dsimp only
        split_ifs
        · exact Or.inr ⟨.found body filemtime, rfl, rfl⟩
        · exact Or.inr ⟨.missing, rfl, rfl⟩
        · exact Or.inl ⟨rfl, Or.inr rfl⟩

/-- A fetch that is kept is shown. -/
theorem Fetch.shown_keep (f : Fetch) (c : Cache) (q : Tile) :
  f.Shown (f.keep c q)
  := by
  cases f with
  | found body filemtime =>
      constructor
      case size => rfl
      case expired => rfl
      case tile => rfl
      case mtime =>
        intro t ht
        obtain ⟨hsome, hle⟩ := Option.filter_eq_some_iff.mp ht
        subst hsome
        exact if_pos (of_decide_eq_true hle)
  | missing =>
      constructor
      case size => rfl
      case expired => rfl
      case tile => rfl
      case mtime =>
        intro t ht
        contradiction

/-- After a tile has been kept, the cache has it and no other. -/
theorem holds_keep_iff (hq : q.Proper) :
  (f.keep c q).Holds q' ↔ q' = q
  := by
  have hfields : (f.keep c q).x = q.x ∧ (f.keep c q).y = q.y ∧ (f.keep c q).z = q.z ∧
      Bytes.cString (f.keep c q).xmlname.toList = q.xmlconfig := by
    have hname : ∀ dst : XmlconfigArray,
        Bytes.cString (Bytes.storeString (n := 40) q.xmlconfig dst).toList = q.xmlconfig := by
      intro dst
      have htake : Bytes.cString ((Bytes.storeString (n := 40) q.xmlconfig dst).toList ++ []) =
          q.xmlconfig.take 40 :=
        Bytes.cString_storeString_take q.nonzero
      rw [List.append_nil, List.take_of_length_le hq.2] at htake
      apply htake
    cases f with
    | found body filemtime => exact ⟨rfl, rfl, rfl, hname _⟩
    | missing => exact ⟨rfl, rfl, rfl, hname _⟩
  rw [Cache.Holds, hfields.1, hfields.2.1, hfields.2.2.1, hfields.2.2.2]
  constructor
  · intro h
    cases q
    cases q'
    simp_all
  · rintro rfl
    exact ⟨rfl, rfl, rfl, rfl⟩

/-- A cache that has been reset has no proper tile. -/
theorem not_holds_reset (hq : q.Proper) :
  ¬ c.reset.Holds q
  := by
  rintro ⟨hx, hy, hz, -⟩
  exact hq.1 ⟨hx.symm, hy.symm, hz.symm⟩

/-! ### Runs -/

namespace Context

/-- What the cache has is what the most recent successful fetch of that tile has found out. -/
def Kept (s : Context) : Prop :=
  ∀ q : Tile, q.Proper → s.cache.Holds q → ∃ f, s.last q = some f ∧ f.Shown s.cache

theorem kept_init {stStat : StatInfo} {xmlname : XmlconfigArray} :
  Kept (init baseurl stStat xmlname)
  := by
  rintro q hq ⟨hx, hy, hz, -⟩
  exact absurd ⟨hx.symm, hy.symm, hz.symm⟩ hq.1

/-- A call for a proper tile keeps the property. -/
theorem Kept.after (h : s.Kept) (hq : q.Proper) :
  (s.after q upstream).Kept
  := by
  intro q' hq' hholds
  rcases tileRetrieve_cases s.baseurl s.cache q upstream with
    ⟨-, hr, hf⟩ | ⟨hf, hr | hr⟩ | ⟨f, hf, hr⟩
  · rw [Context.after, hf, hr] at hholds ⊢
    apply h q' hq' hholds
  · rw [Context.after, hf, hr] at hholds ⊢
    apply h q' hq' hholds
  · rw [Context.after, hr] at hholds
    exact absurd hholds (not_holds_reset hq')
  · rw [Context.after, hf, hr] at hholds ⊢
    obtain rfl := (holds_keep_iff hq).mp hholds
    use f
    constructor
    · apply Function.update_self
    · apply f.shown_keep

/-- When a retrieval works, the cache has the tile. -/
theorem holds_of_tileRetrieve (hq : q.Proper)
    (h : (tileRetrieve baseurl c q upstream).1 = true) :
  (tileRetrieve baseurl c q upstream).2.Holds q
  := by
  rcases tileRetrieve_cases baseurl c q upstream with
    ⟨hholds, hr, -⟩ | ⟨-, hr | hr⟩ | ⟨f, -, hr⟩
  · rw [hr]
    exact hholds
  · rw [hr] at h
    contradiction
  · rw [hr] at h
    contradiction
  · rw [hr]
    exact (holds_keep_iff hq).mpr rfl

end Context

/-- A read of what the cache shows. -/
theorem read_of_shown {sz : ℕ} (h : f.Shown c) :
  (if c.stStat.size < 0 then (⟨-1, []⟩ : TileRead)
    else if c.stStat.size.toInt.toNat > sz then ⟨-1, []⟩
    else ⟨c.stStat.size.toInt32, c.tile.take c.stStat.size.toInt.toNat⟩) = f.read sz
  := by
  rw [h.size, h.tile]
  cases f with
  | missing => rfl
  | found body filemtime =>
      have hsize : (Int64.ofNat body.1.length).toInt = body.1.length :=
        Int64.toInt_ofNat_of_lt body.2
      have hnonneg : ¬ Int64.ofNat body.1.length < 0 := by
        rw [Int64.lt_iff_toInt_lt, hsize]
        exact not_lt.mpr (Int.natCast_nonneg _)
      rw [Fetch.size, if_neg hnonneg, hsize, Int.toNat_natCast, Fetch.body, Fetch.read,
        List.take_length]

/-- A retrieval fails when the tile is not in the cache and is not fetched. -/
theorem not_fetched (hok : (tileRetrieve baseurl c q upstream).1 = false) :
  ¬ c.Holds q ∧ fetched baseurl c q upstream = none
  := by
  rcases tileRetrieve_cases baseurl c q upstream with ⟨-, hkept, -⟩ | ⟨hfetched, -⟩ | ⟨f, -, hkeep⟩
  · rw [hkept] at hok
    contradiction
  · constructor
    · intro hholds
      rw [tileRetrieve, if_pos hholds] at hok
      contradiction
    · exact hfetched
  · rw [hkeep] at hok
    contradiction

/-- In every run of calls for proper tiles, a read and a stat of a proper tile return what the most
recent successful fetch of the same tile has found out: the body, the size, that the tile has not
expired, and the time of modification if the response has said it.  When the tile is not in the
cache and cannot be fetched, they fail, always with the same values. -/
theorem own_fetch {stStat : StatInfo} {xmlname : XmlconfigArray}
    (h : Reach Context.step (fun _ call => call.1.Proper) (.init baseurl stStat xmlname) s)
    (hq : q.Proper) :
  (¬ s.cache.Holds q ∧ fetched s.baseurl s.cache q upstream = none ∧
      (∀ sz, tileRead s.baseurl s.cache q upstream sz = ⟨-1, []⟩) ∧
      tileStat s.baseurl s.cache q upstream = .missing) ∨
    ∃ f, (s.after q upstream).last q = some f ∧
      (∀ sz, tileRead s.baseurl s.cache q upstream sz = f.read sz) ∧
      (tileStat s.baseurl s.cache q upstream).size = f.size ∧
      (tileStat s.baseurl s.cache q upstream).expired = 0 ∧
      ∀ t, f.lastModified = some t → (tileStat s.baseurl s.cache q upstream).mtime = t
  := by
  have hkept : s.Kept := by
    apply h.invariant Context.kept_init
    intro t call u ht hok hstep
    obtain rfl := Option.some.inj hstep
    apply ht.after hok
  cases hok : (tileRetrieve s.baseurl s.cache q upstream).1 with
  | false =>
      left
      obtain ⟨hholds, hfetched⟩ := not_fetched hok
      use hholds, hfetched
      simp [tileRead, tileStat, hok]
  | true =>
      right
      obtain ⟨f, hlast, hshown⟩ := hkept.after hq q hq (Context.holds_of_tileRetrieve hq hok)
      use f, hlast
      have hstat : tileStat s.baseurl s.cache q upstream =
          (tileRetrieve s.baseurl s.cache q upstream).2.stStat := by
        simp [tileStat, hok]
      constructor
      · intro sz
        rw [← read_of_shown hshown]
        simp only [tileRead, hok, if_true]
        rfl
      · rw [hstat]
        exact ⟨hshown.size, hshown.expired, hshown.mtime⟩

/-- A tile of the map `osm`. -/
def sampleTile (x : Int32) : Tile where
  xmlconfig := Bytes.ofString "osm"
  x := x
  y := 0
  z := 3
  nonzero := by decide

/-- A response with a picture, for every address. -/
def sampleFound (filemtime : Option Int64) : List UInt8 → Upstream := fun _ =>
  .response 200 ⟨Bytes.ofString "PNG", by decide⟩ filemtime

/-- A response that there is no picture, for every address. -/
def sampleMissing : List UInt8 → Upstream := fun _ => .response 404 ⟨[], by decide⟩ none

/-- A new context, in memory whose bytes are not zero. -/
def sampleContext : Context :=
  .init (Bytes.ofString "tile.example") ⟨77, 77, 77, 77, 77⟩ (.replicate _ 77)

/-- Calls for a tile that has been fetched are answered from the cache, although the transfer would
fail now. -/
theorem own_fetch_sample :
  ∃ s, run Context.step (fun _ call => decide call.1.Proper) sampleContext
      [(sampleTile 5, sampleFound (some 1000))] = some s ∧
    (∀ sz, tileRead s.baseurl s.cache (sampleTile 5) (fun _ => .failed) sz =
      (Fetch.found ⟨Bytes.ofString "PNG", by decide⟩ (some 1000)).read sz) ∧
    (tileStat s.baseurl s.cache (sampleTile 5) fun _ => .failed).size = 3 ∧
    (tileStat s.baseurl s.cache (sampleTile 5) fun _ => .failed).mtime = 1000
  := by
  have hrun : (run Context.step (fun _ call => decide call.1.Proper) sampleContext
      [(sampleTile 5, sampleFound (some 1000))]).map (fun s =>
        ((s.after (sampleTile 5) fun _ => .failed).last (sampleTile 5),
          decide (tileStat s.baseurl s.cache (sampleTile 5) (fun _ => .failed) = .missing))) =
      some (some (.found ⟨Bytes.ofString "PNG", by decide⟩ (some 1000)), false) := by
    decide +kernel
  obtain ⟨s, hs, hresult⟩ := Option.map_eq_some_iff.mp hrun
  obtain ⟨hlast, hstat⟩ := Prod.mk.inj hresult
  have hreach : Reach Context.step (fun _ call => call.1.Proper) sampleContext s :=
    reach_of_run hs fun _ _ h => of_decide_eq_true h
  have hproper : (sampleTile 5).Proper := by decide
  rcases own_fetch hreach hproper with ⟨-, -, -, hmissing⟩ | ⟨f, hf, hread, hsize, -, hmtime⟩
  · exact absurd hmissing (of_decide_eq_false hstat)
  · obtain rfl := Option.some.inj (hf.symm.trans hlast)
    exact ⟨s, hs, hread, hsize, hmtime 1000 rfl⟩

/-- A tile with a name that is not a proper one. -/
def sampleLong (n : ℕ) : Tile where
  xmlconfig := List.replicate n 97
  x := 5
  y := 0
  z := 3
  nonzero := by simp

/-- The stat of a missing tile, and of a tile without a time, has the time of the tile that was
fetched before it.  The first tile without a time has what was in memory, and so has the tile with
the coordinates of a new context, for which nothing is fetched.  A name of 41 bytes is taken for
its first 40 bytes. -/
theorem foreign_fields :
  (run Context.step (fun _ _ => true) sampleContext
      [(sampleTile 5, sampleFound (some 1000)), (sampleTile 6, sampleMissing)]).map
    (fun s => (s.last (sampleTile 6),
      (tileStat s.baseurl s.cache (sampleTile 6) fun _ => .failed).mtime)) =
    some (some .missing, 1000) ∧
  (run Context.step (fun _ _ => true) sampleContext
      [(sampleTile 5, sampleFound (some 1000)), (sampleTile 6, sampleFound none)]).map
    (fun s => (tileStat s.baseurl s.cache (sampleTile 6) fun _ => .failed).mtime) = some 1000 ∧
  (tileStat sampleContext.baseurl sampleContext.cache (sampleTile 5) (sampleFound none)).mtime =
    77 ∧
  tileStat sampleContext.baseurl sampleContext.cache ⟨[], -1, -1, -1, by decide⟩ sampleMissing =
    ⟨77, 77, 77, 77, 77⟩ ∧
  (run Context.step (fun _ _ => true) sampleContext
      [(sampleLong 41, sampleFound (some 1000))]).map
    (fun s => (s.last (sampleLong 40), tileRead s.baseurl s.cache (sampleLong 40)
      sampleMissing 10)) = some (none, ⟨3, Bytes.ofString "PNG"⟩)
  := by
  decide +kernel

end StoreHttpProxy
