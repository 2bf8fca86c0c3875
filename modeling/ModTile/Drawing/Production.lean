import ModTile.Drawing.MapCache
import ModTile.TileModule.Delivery

/-!
# From the path of a request to the picture

The render daemon, the file store and the Apache module together.  Any number of rendering threads
draw metatiles with the maps that they keep and save them in the store, others expire and delete
metatiles and import data, and the module answers requests from what is in the store.

What the module sends for the path of a tile is cut from a picture of the metatile of that tile, at
the place of the tile, drawn with the map of the layer and for the options of the path.
-/

open Transition
open StoreFile (FileStore StoreCall Plain SavedTile WriteOutcome FileTimes)
open StoreMemcached (MetaKey)
open StoreMemcached.State (keyOf)

namespace Drawing

variable {Style World Image : Type}

/-- What does not change while the daemon runs: Mapnik, the maps of the configuration, what is
loaded for each of them, and the directory of the tiles. -/
structure Setup (Style World Image : Type) where
  mapnik : Mapnik Style World Image
  rounding : FloatRounding
  confs : List (DrawConfig Style)
  loaded : List UInt8 → Map Style
  tileDir : List UInt8

/-- The store, the maps of every thread by their names, and the states of the database with which
metatiles have been drawn. -/
structure Production (Style World : Type) where
  store : FileStore
  maps : ℕ → List UInt8 → MapState Style
  worlds : List World

/-- A thread deals with an item, or the store is called by another program. -/
inductive ProductionStep (World Image : Type) where
  | render (thread : ℕ) (item : Item) (world : World) (memory : Image) (allocated : Bool)
      (w : WriteOutcome) (stamp : FileTimes) (ctime : ℤ)
  | call (c : StoreCall)

/-- The call of `render` for an item. -/
def itemCall (item : Item) (world : World) (memory : Image) : RenderCall World Image where
  x := item.mx
  y := item.my
  z := item.req.z
  options := item.req.optionsString
  tiles := ⟨item.req.xmlnameString, item.req.optionsString, item.mx, item.my, item.req.z,
    fun _ _ => []⟩
  world := world
  memory := memory

/-- The call is one that saves a metatile. -/
def isSave : StoreCall → Bool
  | .save _ _ _ _ _ => true
  | _ => false

namespace Setup

variable (S : Setup Style World Image)

/-- The map with a name. -/
def find (name : List UInt8) : Option (DrawConfig Style) :=
  S.confs.find? fun conf => conf.xmlname = name

/-- What a thread draws for an item, if the item is for a tile of a map that has been loaded. -/
def draw (s : Production Style World) (thread : ℕ) (item : Item) (world : World) (memory : Image) :
    Option (MapState Style × Option MetaTile) :=
  match S.find item.req.xmlnameString with
  | none => none
  | some conf =>
      if conf.ok && checkXyz item.mx item.my item.req.z conf.toXmlMapConfig then
        some (render S.mapnik S.rounding conf (s.maps thread item.req.xmlnameString)
          (itemCall item world memory))
      else none

/-- The daemon has started, and nothing has been saved. -/
def init : Production Style World where
  store := FileStore.init
  maps := fun _ name => MapState.loaded (S.loaded name)
  worlds := []

/-- The maps and the history after something has been drawn. -/
def put (s : Production Style World) (thread : ℕ) (name : List UInt8) (world : World)
    (maps : MapState Style) : Production Style World :=
  { s with
    maps := Function.update s.maps thread (Function.update (s.maps thread) name maps)
    worlds := world :: s.worlds }

/-- One step of the daemon or of another program. -/
def step (s : Production Style World) :
    ProductionStep World Image → Option (Production Style World)
  | .render thread item world memory allocated w stamp ctime =>
      match S.draw s thread item world memory with
      | none => some s
      | some (maps, none) => some (put s thread item.req.xmlnameString world maps)
      | some (maps, some tiles) =>
          (s.store.step S.tileDir (.save tiles allocated w stamp ctime)).map fun store =>
            { put s thread item.req.xmlnameString world maps with store := store }
  | .call c => (s.store.step S.tileDir c).map fun store => { s with store := store }

/-- The condition on a step: the pictures of the map have a size that maps can have, what is saved
is a metatile of a square map whose path is not truncated, and other programs do not save. -/
def Valid (s : Production Style World) : ProductionStep World Image → Prop
  | .render thread item world memory allocated w stamp ctime =>
      (∀ conf, S.find item.req.xmlnameString = some conf →
        S.mapnik.acceptsSize (pictureWidth conf item.req.z) (pictureHeight conf item.req.z) =
          true) ∧
      ∀ maps tiles, S.draw s thread item world memory = some (maps, some tiles) →
        Plain S.tileDir s.store (.save tiles allocated w stamp ctime)
  | .call c => isSave c = false ∧ Plain S.tileDir s.store c

/-- The tiles are cut from a picture of the metatile, drawn with one of the states of the
database. -/
def IsDrawn (worlds : List World) (key : MetaKey) (t : MetaTile) : Prop :=
  ∃ conf, S.find key.xmlconfig = some conf ∧ ∃ world ∈ worlds, ∃ image,
    picture S.mapnik S.rounding conf (S.loaded key.xmlconfig) key.options key.x key.y key.z world =
      some image ∧
    ∀ ox oy : Fin metatile, ox.1 < renderSize conf.prj.aspectX key.z →
      oy.1 < renderSize conf.prj.aspectY key.z → t.tile ox oy = tileData S.mapnik conf image ox oy

/-- The maps of the threads are what has been loaded, and what is saved has been drawn. -/
structure Sound (s : Production Style World) : Prop where
  maps : ∀ thread name conf, S.find name = some conf →
    (s.maps thread name).Kept S.mapnik S.rounding conf (S.loaded name)
  saved : ∀ key e, s.store.saved key = some e → S.IsDrawn s.worlds key e.tile

end Setup

/-! ### What the calls of the store do to what is saved -/

variable {tileDir : List UInt8} {store store' : FileStore} {c : StoreCall} {key : MetaKey}
  {e : SavedTile} {t : MetaTile} {map : XmlMapConfig} {z : Int32}

/-- What is saved after a call has been saved before it, or by it. -/
theorem saved_of_step (h : store.step tileDir c = some store') (he : store'.saved key = some e) :
  (∃ e', store.saved key = some e' ∧ e.tile = e'.tile) ∨
    ∃ t allocated w stamp ctime, c = .save t allocated w stamp ctime ∧ key = keyOf t ∧ e.tile = t
  := by
  cases c with
  | save t allocated w stamp ctime =>
      obtain rfl := Option.some.inj h
      dsimp only at he
      split_ifs at he
      · rcases eq_or_ne key (keyOf t) with rfl | hne
        · rw [Function.update_self] at he
          obtain rfl := Option.some.inj he
          exact .inr ⟨t, allocated, w, stamp, ctime, rfl, rfl, rfl⟩
        · rw [Function.update_of_ne hne] at he
          exact .inl ⟨e, he, rfl⟩
      · exact .inl ⟨e, he, rfl⟩
  | delete xmlconfig x y z unlinked =>
      obtain rfl := Option.some.inj h
      dsimp only at he
      split_ifs at he
      · rcases eq_or_ne key (StoreMemcached.tileKey xmlconfig [] x y z) with rfl | hne
        · rw [Function.update_self] at he
          cases he
        · rw [Function.update_of_ne hne] at he
          exact .inl ⟨e, he, rfl⟩
      · exact .inl ⟨e, he, rfl⟩
  | expire xmlconfig x y z touched ctime =>
      obtain rfl := Option.some.inj h
      dsimp only at he
      split_ifs at he
      · rcases eq_or_ne key (StoreMemcached.tileKey xmlconfig [] x y z) with rfl | hne
        · rw [Function.update_self] at he
          obtain ⟨e', he', rfl⟩ := Option.map_eq_some_iff.mp he
          exact .inl ⟨e', he', rfl⟩
        · rw [Function.update_of_ne hne] at he
          exact .inl ⟨e, he, rfl⟩
      · exact .inl ⟨e, he, rfl⟩
  | access path atime =>
      obtain rfl := Option.some.inj h
      exact .inl ⟨e, he, rfl⟩
  | planetImport xmlname stamp ctime =>
      obtain rfl := Option.some.inj h
      exact .inl ⟨e, he, rfl⟩

/-! ### What is drawn for an item -/

theorem keyOf_renderTiles (saveToString : ℕ → ℕ → List UInt8) :
  keyOf (renderTiles map z saveToString t) = keyOf t
  := by
  rw [renderTiles]
  generalize renderOrder map z = order
  induction order generalizing t with
  | nil => rfl
  | cons o order ih =>
      rw [List.foldl_cons, ih]
      rfl

theorem tile_renderTiles {saveToString : ℕ → ℕ → List UInt8} {ox oy : Fin metatile}
    (hox : ox.1 < renderSize map.prj.aspectX z) (hoy : oy.1 < renderSize map.prj.aspectY z) :
  (renderTiles map z saveToString t).tile ox oy = saveToString ox oy
  := by
  rw [renderTiles, RenderedTiles.foldl_set, if_pos]
  exact RenderedTiles.mem_renderOrder_iff.mpr ⟨hox, hoy⟩

variable {S : Setup Style World Image} {s s' : Production Style World} {thread : ℕ} {item : Item}
  {world : World} {memory : Image} {maps : MapState Style} {conf : DrawConfig Style}
  {a : ProductionStep World Image}

namespace Setup

/-- What is drawn for an item is drawn with the map of its name. -/
theorem draw_eq_some {tiles : Option MetaTile}
    (h : S.draw s thread item world memory = some (maps, tiles)) :
  ∃ conf, S.find item.req.xmlnameString = some conf ∧
    render S.mapnik S.rounding conf (s.maps thread item.req.xmlnameString)
      (itemCall item world memory) = (maps, tiles)
  := by
  rw [draw] at h
  split at h
  · cases h
  · rename_i conf hconf
    split_ifs at h
    exact ⟨conf, hconf, Option.some.inj h⟩

/-- Drawing keeps the maps of the threads. -/
theorem Sound.put (h : S.Sound s) {tiles : Option MetaTile}
    (hdraw : S.draw s thread item world memory = some (maps, tiles)) :
  S.Sound (put s thread item.req.xmlnameString world maps)
  := by
  obtain ⟨conf, hconf, hrender⟩ := draw_eq_some hdraw
  constructor
  case maps =>
    intro thread' name conf' hconf'
    dsimp only [Setup.put]
    rcases eq_or_ne thread' thread with rfl | hthread
    · rw [Function.update_self]
      rcases eq_or_ne name item.req.xmlnameString with rfl | hname
      · rw [Function.update_self]
        obtain rfl := Option.some.inj (hconf.symm.trans hconf')
        have hkept := (h.maps thread' _ conf hconf).render (itemCall item world memory)
        rw [hrender] at hkept
        exact hkept
      · rw [Function.update_of_ne hname]
        exact h.maps thread' name conf' hconf'
    · rw [Function.update_of_ne hthread]
      exact h.maps thread' name conf' hconf'
  case saved =>
    intro key e he
    obtain ⟨conf, hconf, world', hworld, image, hpicture, htiles⟩ := h.saved key e he
    exact ⟨conf, hconf, world', List.mem_cons_of_mem _ hworld, image, hpicture, htiles⟩

/-- The metatile that is saved for an item has been drawn. -/
theorem Sound.isDrawn (h : S.Sound s) {tiles : MetaTile}
    (hsize : ∀ conf, S.find item.req.xmlnameString = some conf →
      S.mapnik.acceptsSize (pictureWidth conf item.req.z) (pictureHeight conf item.req.z) = true)
    (hdraw : S.draw s thread item world memory = some (maps, some tiles)) :
  S.IsDrawn (world :: s.worlds) (keyOf tiles) tiles
  := by
  obtain ⟨conf, hconf, hrender⟩ := draw_eq_some hdraw
  have htiles := (h.maps thread _ conf hconf).tiles (itemCall item world memory)
    (hsize conf hconf)
  rw [hrender] at htiles
  obtain ⟨image, hpicture, rfl⟩ := Option.map_eq_some_iff.mp htiles.symm
  rw [keyOf_renderTiles]
  refine ⟨conf, hconf, world, List.mem_cons_self, image, hpicture, ?_⟩
  intro ox oy hox hoy
  exact tile_renderTiles hox hoy

/-- Every step keeps what is saved drawn. -/
theorem Sound.step (h : S.Sound s) (hvalid : S.Valid s a) (hstep : S.step s a = some s') :
  S.Sound s'
  := by
  cases a with
  | render thread item world memory allocated w stamp ctime =>
      rw [Setup.step] at hstep
      split at hstep
      case h_1 =>
        obtain rfl := Option.some.inj hstep
        exact h
      case h_2 maps hdraw =>
        obtain rfl := Option.some.inj hstep
        exact h.put hdraw
      case h_3 maps tiles hdraw =>
        obtain ⟨store, hstore, rfl⟩ := Option.map_eq_some_iff.mp hstep
        have hput := h.put hdraw
        constructor
        case maps => exact hput.maps
        case saved =>
          intro key e he
          rcases saved_of_step hstore he with ⟨e', he', htile⟩ | ⟨t, _, _, _, _, hc, rfl, htile⟩
          · rw [htile]
            exact hput.saved key e' he'
          · obtain rfl : tiles = t := by
              cases hc
              rfl
            rw [htile]
            exact h.isDrawn hvalid.1 hdraw
  | call c =>
      obtain ⟨store, hstore, rfl⟩ := Option.map_eq_some_iff.mp hstep
      constructor
      case maps => exact h.maps
      case saved =>
        intro key e he
        rcases saved_of_step hstore he with ⟨e', he', htile⟩ | ⟨t, _, _, _, _, rfl, -, -⟩
        · rw [htile]
          exact h.saved key e' he'
        · cases hvalid.1

theorem sound_init :
  S.Sound S.init
  where
  maps := fun _ _ _ _ => MapState.kept_loaded
  saved := fun _ _ he => by cases he

theorem sound_of_reach (h : Reach S.step S.Valid S.init s) :
  S.Sound s
  := h.invariant sound_init fun _ _ _ hs hvalid hstep => hs.step hvalid hstep

/-- The store of a run is that of a run of the store. -/
theorem reach_store (h : Reach S.step S.Valid s s') :
  Reach (FileStore.step S.tileDir) (Plain S.tileDir) s.store s'.store
  := by
  apply h.project (f := Production.store)
  intro s a s' hvalid hstep
  cases a with
  | render thread item world memory allocated w stamp ctime =>
      rw [Setup.step] at hstep
      split at hstep
      case h_1 =>
        obtain rfl := Option.some.inj hstep
        exact .inl rfl
      case h_2 maps hdraw =>
        obtain rfl := Option.some.inj hstep
        exact .inl rfl
      case h_3 maps tiles hdraw =>
        obtain ⟨store, hstore, rfl⟩ := Option.map_eq_some_iff.mp hstep
        exact .inr ⟨_, hvalid.2 maps tiles hdraw, hstore⟩
  | call c =>
      obtain ⟨store, hstore, rfl⟩ := Option.map_eq_some_iff.mp hstep
      exact .inr ⟨c, hvalid.2, hstore⟩

end Setup

/-! ### What is sent -/

open TileModule

variable {scfg : ServerConf} {locals : Locals} {o : Store.InitOutcome} {uri srs : List UInt8}
  {userdata userdata' : Userdata} {rdata : TileRequestData} {config : TileConfigRec}
  {cmd : Protocol} {v : Visit} {r : Response} {zoom x y : ℤ}
  {atHook atRender atRead : Production Style World}

theorem toNat_emod_lt (x : ℤ) :
  (x % 8).toNat < metatile
  := by
  rw [metatile]
  omega

/-- The remainder of a coordinate, which is the place of the tile in its metatile. -/
def place (x : ℤ) : Fin metatile := ⟨(x % 8).toNat, toNat_emod_lt x⟩

theorem commandTile_eq (e : SavedTile) :
  commandTile cmd e = e.tile.tile (place cmd.x.toInt) (place cmd.y.toInt)
  := by
  have hoffset : MetaTile.xyzToMetaOffset cmd.x cmd.y =
      (place cmd.x.toInt).1 * metatile + (place cmd.y.toInt).1 := by
    have hcast := MetaTile.xyzToMetaOffset_eq (x := cmd.x) (y := cmd.y)
    dsimp only [place]
    rw [metatile] at hcast ⊢
    omega
  rw [commandTile, hoffset, MetaTile.tileAt, MetaTile.order_eq (place _, place _)]

/-- The tile of a square map is one of those into which the picture of its metatile is cut. -/
theorem place_lt_renderSize {A : ℤ} {w z : Int32} (hA : A = 1 ∨ A = 2) (h0 : 0 ≤ w.toInt)
    (hlt : w.toInt < 2 ^ z.toInt.toNat) :
  (place w.toInt).1 < renderSize A z
  := by
  have hlt' : w.toInt < 2 ^ z.toInt.toNat * A := by
    rcases hA with rfl | rfl
    all_goals omega
  apply (RenderedTiles.lt_renderSize_iff hA h0 hlt' (place w.toInt).2).mp
  dsimp only [place]
  omega

/-- The map of the layer. -/
def sampleConf : DrawConfig ℕ := { sampleDrawConfig with xmlname := Bytes.ofString "default" }

/-- A daemon with one map. -/
def sampleSetup : Setup ℕ Unit (Option (Map ℕ)) where
  mapnik := sampleMapnik
  rounding := FloatRounding.exact
  confs := [sampleConf]
  loaded := fun _ => ⟨7, 2304, 2304, ⟨0, 0, 1, 1⟩, 0⟩
  tileDir := Bytes.ofString "/tiles"

/-- A request for the metatile of a tile. -/
def sampleItem : Item :=
  { Item.sample .cmdRender 11 5 with
    req := { (Item.sample .cmdRender 11 5).req with
      y := 17
      z := 5
      xmlname := Bytes.storeString (Bytes.ofString "default") (.replicate _ 0) }
    my := 16 }

/-- The metatile is drawn and saved. -/
def sampleStep : ProductionStep Unit (Option (Map ℕ)) :=
  .render 0 sampleItem () none true { StoreFile.sampleWrite with written := 724 }
    ⟨⟨1000, 0⟩, ⟨1000, 0⟩⟩ 1000

/-- The metatile that is saved is one of a square map. -/
theorem valid_sampleStep :
  sampleSetup.Valid sampleSetup.init sampleStep
  := by
  have hdraw : ((sampleSetup.draw sampleSetup.init 0 sampleItem () none).bind Prod.snd).map
      (fun t => (keyOf t, (MetaTile.tileOrder.map fun o => (t.tile o.1 o.2).length).sum)) =
      some (StoreMemcached.tileKey (Bytes.ofString "default") [] 11 17 5, 192) := by
    decide +kernel
  refine ⟨fun _ _ => rfl, ?_⟩
  intro maps tiles htiles
  rw [htiles] at hdraw
  obtain ⟨hkey, hsum⟩ := Prod.mk.inj (Option.some.inj hdraw)
  have hname : StoreFileUtils.ValidName (Bytes.ofString "default") :=
    ⟨by decide, by decide, by decide⟩
  have hvalid := StoreFile.keyValid_tileKey hname
    (show StoreFileUtils.ValidTile 11 17 5 by constructor <;> decide)
    (show StoreFileUtils.Fits pathMax sampleSetup.tileDir (Bytes.ofString "default") [] 11 17 5 from
      show _ < pathMax by decide +kernel)
  have hx : tiles.x = 8 := congrArg MetaKey.x hkey
  have hy : tiles.y = 16 := congrArg MetaKey.y hkey
  refine ⟨⟨?_, ?_⟩, ?_, hkey ▸ hvalid⟩
  · rw [hx]
    decide
  · rw [hy]
    decide
  · rw [MetaTile.Small, hsum]
    decide

end Drawing
