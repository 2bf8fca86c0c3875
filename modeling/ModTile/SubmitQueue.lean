import ModTile.Protocol.Basic

/-!
# The queue of the submitting programs

The command that `fetch` of `render_submit_queue.c` makes for an item of the queue.  The
memory for it comes from `malloc` and is not cleared.
-/

namespace SubmitQueue

/-- `struct qItem`: a tile to submit. -/
structure QItem where
  mapname : List UInt8
  x : Int32
  y : Int32
  z : Int32

/-- The command for an item, in memory with the content `old`. -/
def fetchCommand (old : Protocol) (e : QItem) : Protocol :=
  { old with
    ver := 2
    cmd := .cmdRenderBulk
    z := e.z
    x := e.x
    y := e.y
    xmlname := Bytes.strncpy (n := 40) (k := 1) e.mapname old.xmlname }

end SubmitQueue
