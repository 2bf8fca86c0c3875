import ModTile.RenderedTiles
import ModTile.RequestQueue.Removal
import ModTile.Renderd.ReceivedStrings

/-!
# What is computed from the zoom level of a request

The zoom level of a request comes from a client and is any number of 32 bits.  A rendering
thread shifts by it, and the statistics of the queue are indexed with it.  Both are undefined
for a zoom level that is out of range.

The functions below list the amounts of the shifts that a rendering thread makes for an item,
in their order.  All but one of them come after `check_xyz` has compared the zoom level with
those of the map, which are between zero and `MAX_ZOOM` in an accepted configuration, and so
does the rendering that is counted in the statistics.  The first shift, for the number of
tiles that is written to the log, comes before any test.
-/

open Transition

namespace RenderThread

/-- The shifts of `check_xyz`. -/
def checkXyzShifts (z : Int32) (map : XmlMapConfig) : List ℤ :=
  if z.toInt < map.minzoom ∨ z.toInt > map.maxzoom then [] else [z.toInt]

/-- The shifts of `tile2prjbounds`: two for the size of the picture, and one for each side. -/
def tile2prjboundsShifts (z : Int32) : List ℤ :=
  [z.toInt, z.toInt] ++ [z.toInt, z.toInt, z.toInt, z.toInt]

/-- The shifts of `render`. -/
def renderShifts (z : Int32) : List ℤ := [z.toInt, z.toInt] ++ tile2prjboundsShifts z

/-- The shifts of `expire_tiles`. -/
def expireTilesShifts (sock : ℤ) (z : Int32) : List ℤ := if sock < 0 then [] else [z.toInt]

/-- The shifts that are made for an item when its map has been found. -/
def renderMapShifts (item : Item) (o : RenderOutcome) (sock : ℤ) (map : XmlMapConfig) : List ℤ :=
  if map.ok then
    checkXyzShifts item.req.z map ++
      if checkXyz item.mx item.my item.req.z map then
        renderShifts item.req.z ++
          if o.response = .cmdDone then expireTilesShifts sock item.req.z else []
      else []
  else []

/-- The shifts in the loop over the maps. -/
def renderLoopShifts (item : Item) (o : RenderOutcome) (sock : ℤ) : List XmlMapConfig → List ℤ
  | [] => []
  | map :: maps =>
      if map.xmlname = item.req.xmlnameString then renderMapShifts item o sock map
      else renderLoopShifts item o sock maps

/-- The shifts that a rendering thread makes for an item. -/
def renderItemShifts (maps : List XmlMapConfig) (item : Item) (o : RenderOutcome) (sock : ℤ) :
    List ℤ :=
  item.req.z.toInt :: renderLoopShifts item o sock maps

variable {maps : List XmlMapConfig} {map : XmlMapConfig} {item : Item} {o : RenderOutcome}
  {sock a : ℤ} {z : Int32}

theorem mem_checkXyzShifts (h : a ∈ checkXyzShifts z map) :
  a = z.toInt ∧ map.minzoom ≤ z.toInt ∧ z.toInt ≤ map.maxzoom
  := by
  rw [checkXyzShifts] at h
  split at h
  · cases h
  · rename_i hzoom
    rw [not_or, not_lt, not_lt] at hzoom
    exact ⟨List.mem_singleton.mp h, hzoom⟩

/-- Every shift for a map that has been found is by a zoom level of this map. -/
theorem mem_renderMapShifts (h : a ∈ renderMapShifts item o sock map) :
  a = item.req.z.toInt ∧ map.minzoom ≤ item.req.z.toInt ∧ item.req.z.toInt ≤ map.maxzoom
  := by
  rw [renderMapShifts] at h
  split at h
  · rcases List.mem_append.mp h with h | h
    · apply mem_checkXyzShifts h
    · split at h
      · rename_i hcheck
        refine ⟨?_, (RenderedTiles.checkXyz_iff.mp hcheck).1⟩
        rcases List.mem_append.mp h with h | h
        · simpa [renderShifts, tile2prjboundsShifts] using h
        · split at h
          · rw [expireTilesShifts] at h
            split at h
            · cases h
            · apply List.mem_singleton.mp h
          · cases h
      · cases h
  · cases h

/-- So is every shift in the loop over the maps, for one of the maps. -/
theorem mem_renderLoopShifts (h : a ∈ renderLoopShifts item o sock maps) :
  ∃ map ∈ maps, a = item.req.z.toInt ∧ map.minzoom ≤ item.req.z.toInt ∧
    item.req.z.toInt ≤ map.maxzoom
  := by
  induction maps with
  | nil => cases h
  | cons map maps ih =>
      rw [renderLoopShifts] at h
      split at h
      · exact ⟨map, List.mem_cons_self, mem_renderMapShifts h⟩
      · obtain ⟨map', hmem, hzoom⟩ := ih h
        exact ⟨map', List.mem_cons_of_mem _ hmem, hzoom⟩

/-- A rendering that took time is at a zoom level of one of the maps. -/
theorem zoom_of_renderItem {r : Response} (hr : r ∈ renderItem maps item o)
    (htime : 0 < r.renderTime) :
  ∃ map ∈ maps, map.minzoom ≤ item.req.z.toInt ∧ item.req.z.toInt ≤ map.maxzoom
  := by
  rw [renderItem_eq, List.mem_singleton] at hr
  split at hr
  · rename_i map hfind
    rw [renderMap] at hr
    split at hr
    · split at hr
      · rename_i hcheck
        exact ⟨map, List.mem_of_find?_eq_some hfind, (RenderedTiles.checkXyz_iff.mp hcheck).1⟩
      · simp [hr] at htime
    · simp [hr] at htime
  · simp [hr] at htime

end RenderThread

namespace Renderd

open RenderThread RenderdConfig MapNames

variable {ini : List IniSection} {configFileName tileDir : List UInt8} {numThreads : ℤ}
  {maps : List XmlConfigItem} {setup : ℕ → SetupOutcome} {s : Renderd} {w : ℕ} {p : Ptr}
  {m : Heap} {item : Item} {o : RenderOutcome} {sock : ℤ}

/-- The zoom levels of the maps of a rendering thread are between zero and `MAX_ZOOM`. -/
theorem zooms_renderThreadMaps
    (h : processMapSections ini configFileName tileDir numThreads = .ok maps) :
  ∀ map ∈ renderThreadMaps setup maps, 0 ≤ map.minzoom ∧ map.maxzoom ≤ maxZoom
  := by
  intro map hmap
  obtain ⟨i, hi, rfl⟩ := List.mem_mapIdx.mp hmap
  obtain ⟨hmin, -, hmax⟩ := processMapSections_zooms h _ (List.getElem_mem hi)
  exact ⟨hmin, hmax⟩

/-- The amount of a shift to the left of the number one for which the result is defined. -/
def Shiftable (a : ℤ) : Prop := 0 ≤ a ∧ a ≤ 30

instance (a : ℤ) : Decidable (Shiftable a) := inferInstanceAs (Decidable (0 ≤ a ∧ a ≤ 30))

/-- All shifts for an item are defined exactly when the first one is. -/
theorem shiftable_renderItemShifts_iff
    (h : processMapSections ini configFileName tileDir numThreads = .ok maps) :
  (∀ a ∈ renderItemShifts (renderThreadMaps setup maps) item o sock, Shiftable a) ↔
    Shiftable item.req.z.toInt
  := by
  rw [renderItemShifts, List.forall_mem_cons]
  apply and_iff_left
  intro a ha
  obtain ⟨map, hmap, rfl, hmin, hmax⟩ := mem_renderLoopShifts ha
  obtain ⟨h0, hle⟩ := zooms_renderThreadMaps h map hmap
  have hmaxZoom : maxZoom = 20 := rfl
  constructor <;> omega

/-- The index into the statistics is in range for every call of `send_response`. -/
theorem countable_renderItem
    (h : processMapSections ini configFileName tileDir numThreads = .ok maps) {r : Response}
    (hr : r ∈ renderItem (renderThreadMaps setup maps) item o) :
  RequestQueue.Countable item r.renderTime
  := by
  rcases le_or_gt r.renderTime 0 with htime | htime
  · exact Or.inl htime
  · obtain ⟨map, hmap, hmin, hmax⟩ := zoom_of_renderItem hr htime
    obtain ⟨h0, hle⟩ := zooms_renderThreadMaps h map hmap
    exact Or.inr ⟨h0.trans hmin, hmax.trans hle⟩

/-- The step does not receive a request, or it receives one with a zoom level for which the shift
is defined. -/
def ReceivesShiftable (_ : Renderd) : ThreadStep → Prop
  | .receive _ req => Shiftable req.z.toInt
  | _ => True

instance (s : Renderd) : (a : ThreadStep) → Decidable (s.ReceivesShiftable a)
  | .receive _ req => inferInstanceAs (Decidable (Shiftable req.z.toInt))
  | .accept _ | .rxRequest _ | .sendNotDone | .clear _ | .close | .fetch _ | .finish ..
  | .respond _ => instDecidableTrue

/-- In runs that receive only such requests, so are the requests of all items. -/
theorem reach_shiftable {xmlmaps : List XmlMapConfig}
    (h : Reach (step xmlmaps) ReceivesShiftable (init m) s) (hw : s.workers w = .rendering p) :
  Shiftable (s.heap p).req.z.toInt
  := by
  obtain ⟨⟨v, chains, hc⟩, hp⟩ := RequestsHave.reach (P := fun req => Shiftable req.z.toInt) h (by
    intro s fd req hok
    rw [upgrade_eq]
    apply hok)
  have hfetched := hc.queue.fetched.mp (hc.rendering.mpr ⟨w, hw⟩)
  apply hp.item p
  apply hc.mem_allocated_of_accepted
  apply hc.queue.accepted.mpr (Or.inl ⟨_, hfetched⟩)

/-- For the maps of an accepted configuration: the shifts for an item are all defined exactly when
its zoom level is between 0 and 30, and the index into the statistics is in range for every
item.  In every run in which the zoom levels of the requests that are received are between 0
and 30, all shifts are defined. -/
theorem zoom_arithmetic_defined
    (h : processMapSections ini configFileName tileDir numThreads = .ok maps)
    (setup : ℕ → SetupOutcome) :
  (∀ item o sock,
      ((∀ a ∈ renderItemShifts (renderThreadMaps setup maps) item o sock, Shiftable a) ↔
        Shiftable item.req.z.toInt) ∧
      ∀ r ∈ renderItem (renderThreadMaps setup maps) item o,
        RequestQueue.Countable item r.renderTime) ∧
    ∀ m s w p o sock,
      Reach (step (renderThreadMaps setup maps)) ReceivesShiftable (init m) s →
      s.workers w = .rendering p →
      ∀ a ∈ renderItemShifts (renderThreadMaps setup maps) (s.heap p) o sock, Shiftable a
  := by
  constructor
  · intro item o sock
    use shiftable_renderItemShifts_iff h
    intro r hr
    apply countable_renderItem h hr
  · intro m s w p o sock hreach hw
    apply (shiftable_renderItemShifts_iff h).mpr
    apply reach_shiftable hreach hw

/-- A request for a tile of the map `hills`. -/
def sampleHills (z : Int32) : Protocol :=
  { sampleRequest 1 (.replicate _ 0) with
    z := z
    xmlname := Bytes.storeString (Bytes.ofString "hills") (.replicate _ 0) }

/-- The maps of a file with the map `hills`, and the daemon with it when a worker has fetched the
item of a request for it. -/
def sampleFetched (ok : Renderd → ThreadStep → Bool) (z : Int32) :
    Option (List XmlConfigItem × Renderd) := do
  let maps ← (processMapSections (sampleFile (Bytes.ofString "hills")
    TileModule.zero_notMem_hills) [] [] 0).toOption
  let s ← run (step (renderThreadMaps (fun _ => ⟨true, true, []⟩) maps)) ok sampleInit
    [.accept 5, .receive 5 (sampleHills z), .rxRequest (some 0), .fetch 0]
  return (maps, s)

/-- What the worker has fetched, and the shifts that it makes when it renders it. -/
def sampleShifts (maps : List XmlConfigItem) (s : Renderd) : Option (Ptr × List ℤ) :=
  match s.workers 0 with
  | .rendering p => some (p, renderItemShifts (renderThreadMaps (fun _ => ⟨true, true, []⟩) maps)
      (s.heap p) (sampleOutcome true 532) 0)
  | _ => none

/-- A request at the zoom level 12 of the map. -/
theorem zoom_arithmetic_defined_hills :
  ∃ maps s p l, sampleFetched (fun s a => decide (s.ReceivesShiftable a)) 12 = some (maps, s) ∧
    sampleShifts maps s = some (p, l) ∧ l = .replicate 11 12 ∧ ∀ a ∈ l, Shiftable a
  := by
  have hrun : (sampleFetched (fun s a => decide (s.ReceivesShiftable a)) 12).bind
      (fun r => sampleShifts r.1 r.2) = some (.item 0, .replicate 11 12) := by
    decide +kernel
  obtain ⟨⟨maps, s⟩, hs, hl⟩ := Option.bind_eq_some_iff.mp hrun
  use maps, s, .item 0, .replicate 11 12, hs, hl, rfl
  simp only [sampleFetched, Option.bind_eq_bind, Option.bind_eq_some_iff, Option.pure_def,
    Option.some.injEq, Prod.mk.injEq] at hs
  obtain ⟨maps, hmaps, s, hs, rfl, rfl⟩ := hs
  rw [sampleShifts] at hl
  split at hl
  · rename_i p hw
    obtain ⟨-, hl⟩ := Prod.mk.inj (Option.some.inj hl)
    rw [← hl]
    apply (zoom_arithmetic_defined (eq_ok_of_toOption hmaps) _).2 _ _ _ _ _ _
      (reach_of_run hs fun _ _ => of_decide_eq_true) hw
  · cases hl

/-- A request at the zoom level 40 is put into the queue, and a worker that fetches it shifts by
40. -/
theorem zoom_shift_undefined :
  (sampleFetched (fun _ _ => true) 40).bind (fun r => sampleShifts r.1 r.2) =
      some (.item 0, [40]) ∧
    ¬ Shiftable 40
  := by
  decide +kernel

end Renderd
