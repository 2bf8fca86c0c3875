import ModTile.Drawing.Bounds
import ModTile.Transition

/-!
# Drawing with maps that are kept

`render` of `gen_tile.cpp` draws a metatile with a map that a rendering thread keeps: the map that
was loaded from the style file or, when the map has a parameterization, a copy of it for the options
of the request, which is made once and kept in `parameterized_map_cache`.  Before it draws, it sets
the size of the map, its extent and, where the style file does not give one, the size of its
buffer.  These are left in the map for the next request.  The image is not cleared when the map has
a background.

What is drawn does not depend on what was drawn before: `render` always makes the picture that a
map makes that has just been loaded.  What the functions of Mapnik do is given by a `Mapnik`.
-/

open Transition

namespace Drawing

variable {Style World Image : Type}

/-- `mapnik::Map`: the style with its layers, and what `render` sets. -/
structure Map (Style : Type) where
  style : Style
  width : ℕ
  height : ℕ
  extent : Box
  bufferSize : ℤ

/-- The functions of Mapnik that are called.  A map keeps its size when it is asked for one that is
too small or too large.  The extent is adapted to the size.  The renderer gives a picture or throws
an exception, which may depend on the database, and it paints over what is in the image if the map
has a background. -/
structure Mapnik (Style World Image : Type) where
  acceptsSize : ℕ → ℕ → Bool
  fixAspectRatio : Style → ℕ → ℕ → Box → Box
  loadFonts : Style → Style
  background : Style → Bool
  blank : ℕ → ℕ → Image
  apply : World → Map Style → ℚ → Image → Option Image
  saveToString : Image → ℕ → ℕ → ℕ → List UInt8 → List UInt8
  apply_background : ∀ world m scale buf buf', background m.style = true →
    apply world m scale buf = apply world m scale buf'

namespace Mapnik

variable (mk : Mapnik Style World Image)

/-- `Map::resize`. -/
def resize (m : Map Style) (width height : ℕ) : Map Style :=
  if mk.acceptsSize width height then
    { m with
      width := width
      height := height
      extent := mk.fixAspectRatio m.style width height m.extent }
  else m

/-- `Map::zoom_to_box`. -/
def zoomToBox (m : Map Style) (box : Box) : Map Style :=
  { m with extent := mk.fixAspectRatio m.style m.width m.height box }

end Mapnik

/-- The part of `struct xmlmapconfig` that does not change after the map has been loaded. -/
structure DrawConfig (Style : Type) extends XmlMapConfig where
  bounds : Box
  tilesize : ℕ
  scale : ℚ
  outputFormat : List UInt8
  parameterizeFunction : Option (Style → List UInt8 → Style)

/-- The part of `struct xmlmapconfig` that changes: the map, and the copies of it by their
options. -/
structure MapState (Style : Type) where
  map : Map Style
  parameterizedMapCache : List UInt8 → Option (Map Style)

/-- The state after the map has been loaded. -/
def MapState.loaded (m : Map Style) : MapState Style where
  map := m
  parameterizedMapCache := fun _ => none

/-- A call of `render`, with the state of the database and what is in the memory of the image. -/
structure RenderCall (World Image : Type) where
  x : Int32
  y : Int32
  z : Int32
  options : List UInt8
  tiles : MetaTile
  world : World
  memory : Image

section Definitions

variable (mk : Mapnik Style World Image) (r : FloatRounding) (conf : DrawConfig Style)

/-- The style of the copy of a map for some options. -/
def parameterized (style : Style) (options : List UInt8) : Style :=
  match conf.parameterizeFunction with
  | none => style
  | some parameterize => mk.loadFonts (parameterize style options)

/-- The map to render with. -/
def MapState.renderMap (s : MapState Style) (options : List UInt8) : Map Style :=
  match conf.parameterizeFunction with
  | none => s.map
  | some _ =>
      match s.parameterizedMapCache options with
      | none => { s.map with style := parameterized mk conf s.map.style options }
      | some m => m

/-- The state in which the map to render with has been changed. -/
def MapState.put (s : MapState Style) (options : List UInt8) (m : Map Style) : MapState Style :=
  match conf.parameterizeFunction with
  | none => { s with map := m }
  | some _ =>
      { s with parameterizedMapCache := Function.update s.parameterizedMapCache options (some m) }

/-- The width of the picture of a metatile. -/
def pictureWidth (z : Int32) : ℕ := renderSize conf.prj.aspectX z * conf.tilesize

/-- The height of the picture of a metatile. -/
def pictureHeight (z : Int32) : ℕ := renderSize conf.prj.aspectY z * conf.tilesize

/-- The size of the buffer for a style that does not give one. -/
def defaultBufferSize : ℤ :=
  FloatRounding.truncate (r.round ((conf.tilesize / 2 : ℕ) * conf.scale))

/-- The map with a buffer. -/
def setBufferSize (m : Map Style) : Map Style :=
  if m.bufferSize = 0 then { m with bufferSize := defaultBufferSize r conf } else m

/-- The map with its size, extent and buffer set for a metatile. -/
def prepare (m : Map Style) (x y z : Int32) : Map Style :=
  let m := mk.resize m (pictureWidth conf z) (pictureHeight conf z)
  let m := mk.zoomToBox m (tile2prjbounds r conf.prj conf.bounds x y z)
  setBufferSize r conf m

/-- The data of a tile, from the picture of its metatile. -/
def tileData (image : Image) (xx yy : ℕ) : List UInt8 :=
  mk.saveToString image (xx * conf.tilesize) (yy * conf.tilesize) conf.tilesize conf.outputFormat

/-- `render`: the maps after the call, and the tiles if the map can be drawn. -/
def render (s : MapState Style) (call : RenderCall World Image) :
    MapState Style × Option MetaTile :=
  let m := prepare mk r conf (s.renderMap mk conf call.options) call.x call.y call.z
  let buf :=
    if mk.background m.style then call.memory
    else mk.blank (pictureWidth conf call.z) (pictureHeight conf call.z)
  (s.put conf call.options m,
    (mk.apply call.world m conf.scale buf).map fun image =>
      renderTiles conf.toXmlMapConfig call.z (tileData mk conf image) call.tiles)

/-- A call of `render` as a step. -/
def MapState.step (s : MapState Style) (call : RenderCall World Image) : Option (MapState Style) :=
  some (render mk r conf s call).1

/-- The size of the buffer with which a map is drawn that was loaded with a given one. -/
def drawnBufferSize (bufferSize : ℤ) : ℤ :=
  if bufferSize = 0 then defaultBufferSize r conf else bufferSize

/-- The picture of a metatile that a map makes that has just been loaded. -/
def picture (m : Map Style) (options : List UInt8) (x y z : Int32) (world : World) : Option Image :=
  let style := parameterized mk conf m.style options
  let width := pictureWidth conf z
  let height := pictureHeight conf z
  mk.apply world
    { style := style
      width := width
      height := height
      extent := mk.fixAspectRatio style width height (tile2prjbounds r conf.prj conf.bounds x y z)
      bufferSize := drawnBufferSize r conf m.bufferSize }
    conf.scale (mk.blank width height)

/-- The size of the buffer is the one with which the map was loaded, or the one that `render`
sets. -/
def BufferKept (loaded m : Map Style) : Prop :=
  m.bufferSize = loaded.bufferSize ∨ m.bufferSize = drawnBufferSize r conf loaded.bufferSize

/-- The maps are what has been loaded and copies of it, apart from what `render` sets. -/
structure MapState.Kept (loaded : Map Style) (s : MapState Style) : Prop where
  style : s.map.style = loaded.style
  buffer : BufferKept r conf loaded s.map
  cached : ∀ options m, s.parameterizedMapCache options = some m →
    m.style = parameterized mk conf loaded.style options ∧ BufferKept r conf loaded m

end Definitions

/-! ### What is set for a picture -/

variable {mk : Mapnik Style World Image} {r : FloatRounding} {conf : DrawConfig Style}
  {m loaded : Map Style} {s : MapState Style} {call : RenderCall World Image} {x y z : Int32}
  {options : List UInt8}

theorem setBufferSize_eq :
  setBufferSize r conf m = { m with bufferSize := drawnBufferSize r conf m.bufferSize }
  := by
  rw [setBufferSize, drawnBufferSize]
  split_ifs
  · rfl
  · rfl

/-- Nothing is left of the former size, extent and buffer. -/
theorem prepare_eq (hsize : mk.acceptsSize (pictureWidth conf z) (pictureHeight conf z) = true) :
  prepare mk r conf m x y z =
    { style := m.style
      width := pictureWidth conf z
      height := pictureHeight conf z
      extent := mk.fixAspectRatio m.style (pictureWidth conf z) (pictureHeight conf z)
        (tile2prjbounds r conf.prj conf.bounds x y z)
      bufferSize := drawnBufferSize r conf m.bufferSize }
  := by
  rw [prepare, setBufferSize_eq, Mapnik.resize, if_pos hsize]
  rfl

/-- Whatever the size, the style is kept and the buffer is set. -/
theorem prepare_keeps :
  (prepare mk r conf m x y z).style = m.style ∧
    (prepare mk r conf m x y z).bufferSize = drawnBufferSize r conf m.bufferSize
  := by
  rw [prepare, setBufferSize_eq, Mapnik.resize]
  split_ifs
  · exact ⟨rfl, rfl⟩
  · exact ⟨rfl, rfl⟩

/-- Setting the size of the buffer again does not change it. -/
theorem drawnBufferSize_drawnBufferSize (bufferSize : ℤ) :
  drawnBufferSize r conf (drawnBufferSize r conf bufferSize) = drawnBufferSize r conf bufferSize
  := by
  rw [drawnBufferSize, drawnBufferSize]
  split_ifs
  · rfl
  · rfl
  · rfl

theorem BufferKept.drawn (h : BufferKept r conf loaded m) :
  drawnBufferSize r conf m.bufferSize = drawnBufferSize r conf loaded.bufferSize
  := by
  rcases h with h | h
  · rw [h]
  · rw [h, drawnBufferSize_drawnBufferSize]

/-! ### What is kept -/

theorem MapState.kept_loaded :
  (MapState.loaded loaded).Kept mk r conf loaded
  where
  style := rfl
  buffer := .inl rfl
  cached := fun _ _ h => by cases h

/-- The map to render with is what has been loaded, or a copy of it. -/
theorem MapState.Kept.renderMap (h : s.Kept mk r conf loaded) (options : List UInt8) :
  (s.renderMap mk conf options).style = parameterized mk conf loaded.style options ∧
    BufferKept r conf loaded (s.renderMap mk conf options)
  := by
  rw [MapState.renderMap]
  split
  case h_1 hnone =>
    rw [parameterized, hnone]
    exact ⟨h.style, h.buffer⟩
  case h_2 =>
    split
    case h_1 =>
      rw [h.style]
      exact ⟨rfl, h.buffer⟩
    case h_2 m hm => exact h.cached options m hm

/-- A call keeps the maps, apart from what it sets. -/
theorem MapState.Kept.render (h : s.Kept mk r conf loaded) (call : RenderCall World Image) :
  (render mk r conf s call).1.Kept mk r conf loaded
  := by
  obtain ⟨hstyle, hbuffer⟩ := h.renderMap call.options
  have hprepared : BufferKept r conf loaded
      (prepare mk r conf (s.renderMap mk conf call.options) call.x call.y call.z) := by
    right
    rw [prepare_keeps.2, hbuffer.drawn]
  rw [Drawing.render]
  dsimp only
  rw [MapState.put]
  split
  case h_1 hnone =>
    rw [parameterized, hnone] at hstyle
    constructor
    case style => rw [prepare_keeps.1, hstyle]
    case buffer => exact hprepared
    case cached => exact h.cached
  case h_2 =>
    constructor
    case style => exact h.style
    case buffer => exact h.buffer
    case cached =>
      intro options m hm
      dsimp only at hm
      rcases eq_or_ne options call.options with rfl | hne
      · rw [Function.update_self] at hm
        obtain rfl := Option.some.inj hm
        exact ⟨prepare_keeps.1.trans hstyle, hprepared⟩
      · rw [Function.update_of_ne hne] at hm
        exact h.cached options m hm

/-- The maps are kept in every run. -/
theorem MapState.kept_of_reach
    (h : Reach (MapState.step mk r conf) anyStep (MapState.loaded loaded) s) :
  s.Kept mk r conf loaded
  := by
  apply h.invariant MapState.kept_loaded
  rintro s call s' hs - hstep
  obtain rfl := Option.some.inj hstep
  exact hs.render _

/-- The tiles that `render` makes are cut from the picture that a map makes that has just been
loaded. -/
theorem MapState.Kept.tiles (h : s.Kept mk r conf loaded) (call : RenderCall World Image)
    (hsize : mk.acceptsSize (pictureWidth conf call.z) (pictureHeight conf call.z) = true) :
  (Drawing.render mk r conf s call).2 =
    (picture mk r conf loaded call.options call.x call.y call.z call.world).map fun image =>
      renderTiles conf.toXmlMapConfig call.z (tileData mk conf image) call.tiles
  := by
  obtain ⟨hstyle, hbuffer⟩ := h.renderMap call.options
  rw [Drawing.render, picture]
  dsimp only
  rw [prepare_eq hsize, hbuffer.drawn, hstyle]
  split_ifs with hbackground
  · rw [mk.apply_background _ _ _ call.memory (mk.blank _ _) hbackground]
  · rfl

/-- However many metatiles a thread has rendered, for whatever options, and whatever is in the
memory for the image, the next one is cut from the picture that a map makes that has just been
loaded. -/
theorem render_eq_picture
    (h : Reach (MapState.step mk r conf) anyStep (MapState.loaded loaded) s)
    (hsize : mk.acceptsSize (pictureWidth conf call.z) (pictureHeight conf call.z) = true) :
  (render mk r conf s call).2 =
    (picture mk r conf loaded call.options call.x call.y call.z call.world).map fun image =>
      renderTiles conf.toXmlMapConfig call.z (tileData mk conf image) call.tiles
  := (MapState.kept_of_reach h).tiles call hsize

/-- Maps whose pictures show the style, the size and the buffer with which they are drawn. -/
def sampleMapnik : Mapnik ℕ Unit (Option (Map ℕ)) where
  acceptsSize := fun _ _ => true
  fixAspectRatio := fun _ _ _ box => box
  loadFonts := id
  background := fun _ => true
  blank := fun _ _ => none
  apply := fun _ m _ _ => some (some m)
  saveToString := fun image _ _ _ _ =>
    match image with
    | none => []
    | some m => [UInt8.ofNat m.style, UInt8.ofNat (m.width / 256), UInt8.ofInt m.bufferSize]
  apply_background := fun _ _ _ _ _ _ => rfl

/-- A map with a parameterization. -/
def sampleDrawConfig : DrawConfig ℕ where
  toXmlMapConfig := RenderThread.sampleMap
  bounds := ⟨0, 0, 1, 1⟩
  tilesize := 256
  scale := 1
  outputFormat := []
  parameterizeFunction := some fun style options => style + options.length

/-- A request for some options. -/
def sampleCall (x y z : Int32) (options : List UInt8) : RenderCall Unit (Option (Map ℕ)) where
  x := x
  y := y
  z := z
  options := options
  tiles := ⟨[], options, x, y, z, fun _ _ => []⟩
  world := ()
  memory := none

/-- A second request for the same options, at another zoom level, is drawn with the kept copy as if
the map had just been loaded. -/
theorem render_eq_picture_again :
  ∃ s, Reach (MapState.step sampleMapnik FloatRounding.exact sampleDrawConfig) anyStep
      (MapState.loaded ⟨7, 2304, 2304, ⟨0, 0, 1, 1⟩, 0⟩) s ∧
    (s.parameterizedMapCache (Bytes.ofString "de")).isSome ∧
    (render sampleMapnik FloatRounding.exact sampleDrawConfig s
      (sampleCall 8 16 5 (Bytes.ofString "de"))).2.map (fun t => t.tileAt 25) = some [9, 8, 128]
  := by
  obtain ⟨s, hs, hcached⟩ : ∃ s, MapState.step sampleMapnik FloatRounding.exact sampleDrawConfig
      (MapState.loaded ⟨7, 2304, 2304, ⟨0, 0, 1, 1⟩, 0⟩)
      (sampleCall 0 0 0 (Bytes.ofString "de")) = some s ∧
      (s.parameterizedMapCache (Bytes.ofString "de")).isSome :=
    ⟨_, rfl, rfl⟩
  have hreach : Reach (MapState.step sampleMapnik FloatRounding.exact sampleDrawConfig) anyStep
      (MapState.loaded ⟨7, 2304, 2304, ⟨0, 0, 1, 1⟩, 0⟩) s := .tail _ .refl trivial hs
  refine ⟨s, hreach, hcached, ?_⟩
  rw [render_eq_picture hreach rfl]
  decide +kernel

end Drawing
