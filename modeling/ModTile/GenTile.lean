import ModTile.Metatile
import ModTile.RequestQueue.Basic

/-!
# Rendering threads

The part of `gen_tile.cpp` that decides what becomes of a request: the projection of a map,
the test of the coordinates, and the handling of one item by `render_thread`.  What mapnik
and the storage backend do is given by a `RenderOutcome`.
-/

/-- The aspect ratio in `struct projectionconfig`.  The bounds of the projection are used for
drawing only. -/
structure ProjectionConfig where
  aspectX : ℤ
  aspectY : ℤ
  deriving DecidableEq

/-- The projection for a reference system, which is recognised by its text. -/
def getProjection (srs : List UInt8) : ProjectionConfig :=
  if Bytes.ofString "+proj=merc +a=6378137 +b=6378137" <:+: srs then
    { aspectX := 1, aspectY := 1 }
  else if srs = Bytes.ofString ("+proj=eqc +lat_ts=0 +lat_0=0 +lon_0=0 +x_0=0 +y_0=0 " ++
      "+ellps=WGS84 +datum=WGS84 +units=m +no_defs") then
    { aspectX := 2, aspectY := 1 }
  else if srs = Bytes.ofString ("+proj=tmerc +lat_0=49 +lon_0=-2 +k=0.9996012717 +x_0=400000 " ++
      "+y_0=-100000 +ellps=airy +datum=OSGB36 +units=m +no_defs") then
    { aspectX := 1, aspectY := 2 }
  else
    { aspectX := 1, aspectY := 1 }

/-- `struct xmlmapconfig`: a map of a rendering thread. -/
structure XmlMapConfig where
  xmlname : List UInt8
  minzoom : ℤ
  maxzoom : ℤ
  ok : Bool
  prj : ProjectionConfig

/-- The coordinates are those of a tile of the map. -/
def checkXyz (x y z : Int32) (map : XmlMapConfig) : Bool :=
  if z.toInt < map.minzoom ∨ z.toInt > map.maxzoom then false
  else
    let limit : ℤ := 2 ^ z.toInt.toNat
    !(x.toInt < 0 || x.toInt > limit * map.prj.aspectX - 1 ||
      y.toInt < 0 || y.toInt > limit * map.prj.aspectY - 1)

/-- How the block ends in which the metatile is saved. -/
inductive TryEnd where
  | completed
  | exception
  | unknownException
  deriving DecidableEq

/-- What happens while an item is rendered and saved: whether `render` succeeds and with which
tiles, how long it takes, whether the buffer for the metatile can be allocated, what
`metatile_write` of the storage backend returns, and how the block around it ends. -/
structure RenderOutcome where
  rendered : Bool
  tile : Fin metatile → Fin metatile → List UInt8
  renderTime : ℤ
  allocated : Bool
  metatileWrite : ℤ
  tryEnd : TryEnd

namespace RenderOutcome

/-- The metatile that is saved for an item. -/
def metaTile (o : RenderOutcome) (item : Item) : MetaTile where
  xmlconfig := item.req.xmlnameString
  options := item.req.optionsString
  x := item.mx
  y := item.my
  z := item.req.z
  tile := o.tile

/-- The storage backend has written the whole metatile. -/
def stored (o : RenderOutcome) (item : Item) : Bool :=
  o.allocated && o.metatileWrite = (o.metaTile item).length

/-- The response after the calls of `render` and `save`.  When the buffer cannot be allocated
or the storage backend returns another number than the length of the metatile, `save` writes
a message and returns. -/
def response (o : RenderOutcome) : ProtoCmd :=
  if o.rendered then
    match o.tryEnd with
    | .completed => .cmdDone
    | .exception | .unknownException => .cmdNotDone
  else .cmdNotDone

end RenderOutcome

namespace RenderThread

/-- A call of `send_response` for an item: the response and the time of rendering. -/
structure Response where
  cmd : ProtoCmd
  renderTime : ℤ
  deriving DecidableEq

/-- The response to a request for a map of the thread. -/
def renderMap (item : Item) (o : RenderOutcome) (map : XmlMapConfig) : Response :=
  if map.ok then
    if checkXyz item.mx item.my item.req.z map then ⟨o.response, o.renderTime⟩
    else ⟨.cmdIgnore, -1⟩
  else ⟨.cmdNotDone, -1⟩

/-- The loop over the maps from the index `i` on: the index at which it ends and the calls of
`send_response` that it makes. -/
def renderLoop (item : Item) (o : RenderOutcome) : ℕ → List XmlMapConfig → ℕ × List Response
  | i, [] => (i, [])
  | i, map :: maps =>
      if map.xmlname = item.req.xmlnameString then (i, [renderMap item o map])
      else renderLoop item o (i + 1) maps

/-- The calls of `send_response` that a rendering thread makes for an item. -/
def renderItem (maps : List XmlMapConfig) (item : Item) (o : RenderOutcome) : List Response :=
  let (i, calls) := renderLoop item o 0 maps
  if i = maps.length then calls ++ [⟨.cmdNotDone, -1⟩] else calls

/-- The loop ends at the first map with the name of the request, or at the end. -/
theorem renderLoop_eq (maps : List XmlMapConfig) (item : Item) (o : RenderOutcome) (i : ℕ) :
  (∃ map, maps.find? (·.xmlname = item.req.xmlnameString) = some map ∧
      (renderLoop item o i maps).1 < i + maps.length ∧
      (renderLoop item o i maps).2 = [renderMap item o map]) ∨
    maps.find? (·.xmlname = item.req.xmlnameString) = none ∧
      renderLoop item o i maps = (i + maps.length, [])
  := by
  induction maps generalizing i with
  | nil =>
      right
      exact ⟨rfl, rfl⟩
  | cons map maps ih =>
      by_cases h : map.xmlname = item.req.xmlnameString
      · left
        use map
        simp [renderLoop, h]
      · simp only [renderLoop, h, if_false, List.find?_cons, decide_false, List.length_cons]
        rw [← Nat.add_assoc, Nat.add_right_comm]
        apply ih

variable {maps : List XmlMapConfig} {item : Item} {o : RenderOutcome}

/-- A rendering thread makes one call for an item: the response of the first map with the
name of the request, or that the request is not done if there is none. -/
theorem renderItem_eq :
  renderItem maps item o =
    [match maps.find? (·.xmlname = item.req.xmlnameString) with
      | some map => renderMap item o map
      | none => ⟨.cmdNotDone, -1⟩]
  := by
  rcases renderLoop_eq maps item o 0 with
    ⟨map, hfind, hlt, hcalls⟩ | ⟨hfind, hloop⟩
  · rw [Nat.zero_add] at hlt
    simp only [renderItem, hfind, hcalls, if_neg hlt.ne]
  · rw [Nat.zero_add] at hloop
    simp [renderItem, hfind, hloop]

/-- The thread renders the item and comes to save the metatile. -/
def Saves (maps : List XmlMapConfig) (item : Item) (o : RenderOutcome) : Prop :=
  ∃ map, maps.find? (·.xmlname = item.req.xmlnameString) = some map ∧ map.ok ∧
    checkXyz item.mx item.my item.req.z map ∧ o.rendered

/-- The response says that the request is done exactly when the metatile has been rendered and
the block in which it is saved ends without an exception. -/
theorem cmdDone_mem_renderItem_iff :
  (∃ r ∈ renderItem maps item o, r.cmd = .cmdDone) ↔
    Saves maps item o ∧ o.tryEnd = .completed
  := by
  rw [renderItem_eq]
  simp only [List.mem_singleton, exists_eq_left, Saves]
  cases hfind : maps.find? (·.xmlname = item.req.xmlnameString) with
  | none => simp
  | some map =>
      cases hok : map.ok <;> cases hxyz : checkXyz item.mx item.my item.req.z map <;>
        cases hr : o.rendered <;> cases ht : o.tryEnd <;>
        simp [renderMap, RenderOutcome.response, hok, hxyz, hr, ht]

/-- A map without a name, in the web mercator projection. -/
def sampleMap : XmlMapConfig where
  xmlname := []
  minzoom := 0
  maxzoom := 18
  ok := true
  prj := getProjection []

/-- A rendering of empty tiles. -/
def sampleOutcome (allocated : Bool) (metatileWrite : ℤ) : RenderOutcome where
  rendered := true
  tile := fun _ _ => []
  renderTime := 5
  allocated := allocated
  metatileWrite := metatileWrite
  tryEnd := .completed

end RenderThread
