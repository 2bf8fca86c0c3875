import ModTile.CachedEntry
import ModTile.ObjectStore
import ModTile.Protocol.Basic
import ModTile.Transition

/-!
# The rados store

The functions of `store_rados.c`, for a pool that keeps bytes for every key.  A context keeps the
header of the object that it has read last, together with the map and the coordinates, and uses
it again for a tile of the same map and metatile.

The options are not compared, and nothing that changes an object changes the header that is kept.
So a tile is read from the object that is there as long as the header that is kept is the one of
that object.
-/

open StoreFile (TileRead headerInt toSize)
open Transition

namespace StoreRados

open ObjectStore

/-- The bytes that the pool keeps. -/
abbrev Objects : Type := List UInt8 → Option (List UInt8)

/-- The map, the options and the coordinates of a tile. -/
structure Tile where
  xmlconfig : List UInt8
  options : List UInt8
  x : Int32
  y : Int32
  z : Int32

/-- The key of the object for a tile. -/
def radosXyzoToStoragekey (q : Tile) : List UInt8 :=
  storageKey q.xmlconfig q.options q.z.toInt (origin q.x).toInt (origin q.y).toInt

/-! ### The library -/

/-- What `rados_read` does: it fails with an error and its text, or delivers at most a number of
bytes. -/
inductive Reply where
  | failure (errno : ℕ) (reason : List UInt8)
  | upTo (n : ℕ)

/-- The error when there is no object. -/
def enoent : ℕ := 2

/-- The bytes that `rados_read` delivers, or the error. -/
def radosRead (objects : Objects) (key : List UInt8) (len offset : ℕ) :
    Reply → Except (ℕ × List UInt8) (List UInt8)
  | .failure errno reason => .error (errno, reason)
  | .upTo n =>
      match objects key with
      | none => .error (enoent, Bytes.ofString "No such file or directory")
      | some object => .ok ((object.drop offset).take (min len n))

/-- All the bytes are delivered that are asked for. -/
def Reply.Delivers (reply : Reply) (object : Option (List UInt8)) (len offset : ℕ) : Prop :=
  ∀ n bytes, reply = .upTo n → object = some bytes → len ≤ n ∧ offset + len ≤ bytes.length

/-- The call does not fail while there is an object. -/
def Reply.Answers (reply : Reply) : Prop := ∃ n, reply = .upTo n

/-- What is delivered as a whole. -/
theorem radosRead_ok {objects : Objects} {key bytes : List UInt8} {len offset : ℕ} {reply : Reply}
    (h : radosRead objects key len offset reply = .ok bytes)
    (hdelivers : reply.Delivers (objects key) len offset) :
  ∃ object, objects key = some object ∧ bytes = (object.drop offset).take len ∧
    bytes.length = len
  := by
  cases reply with
  | failure errno reason => contradiction
  | upTo n =>
      rw [radosRead] at h
      split at h
      · contradiction
      · rename_i object hobject
        obtain ⟨hn, hlength⟩ := hdelivers n object rfl hobject
        obtain rfl := Except.ok.inj h
        rw [Nat.min_eq_left hn, List.length_take, List.length_drop]
        use object, hobject, rfl
        omega

/-- A call that does not fail finds an object or misses it. -/
theorem radosRead_error {objects : Objects} {key : List UInt8} {len offset : ℕ} {reply : Reply}
    {e : ℕ × List UInt8} (h : radosRead objects key len offset reply = .error e)
    (hanswers : reply.Answers) :
  objects key = none
  := by
  obtain ⟨n, rfl⟩ := hanswers
  rw [radosRead] at h
  split at h
  · assumption
  · contradiction

/-! ### The header that is kept -/

/-- `struct metadata_cache`, with the bytes of memory behind it, which are compared to a name when
no byte of the array is zero. -/
structure MetadataCache where
  data : List UInt8
  length_data : data.length = headerLen
  x : Int32
  y : Int32
  z : Int32
  xmlname : XmlconfigArray
  behind : List UInt8

namespace MetadataCache

/-- The header is used for a tile. -/
def Hit (c : MetadataCache) (q : Tile) : Prop :=
  c.x = origin q.x ∧ c.y = origin q.y ∧ c.z = q.z ∧
    Bytes.cString (c.xmlname.toList ++ c.behind) = q.xmlconfig

instance (c : MetadataCache) (q : Tile) : Decidable (c.Hit q) :=
  inferInstanceAs (Decidable (_ ∧ _))

/-- The memory of the header after bytes have been read into it. -/
def fill (c : MetadataCache) (bytes : List UInt8) : List UInt8 :=
  (bytes ++ c.data.drop bytes.length).take headerLen

theorem length_fill (c : MetadataCache) (bytes : List UInt8) :
  (c.fill bytes).length = headerLen
  := by
  rw [fill, List.length_take, List.length_append, List.length_drop, c.length_data]
  omega

/-- Bytes that fill the memory replace all of it. -/
theorem fill_of_length {c : MetadataCache} {bytes : List UInt8} (h : bytes.length = headerLen) :
  c.fill bytes = bytes
  := by
  rw [fill, List.take_left' h]

end MetadataCache

/-- What `read_meta_data` returns, and the header that is kept after it. -/
def readMetaData (objects : Objects) (c : MetadataCache) (q : Tile) (reply : Reply) :
    Option (List UInt8) × MetadataCache :=
  if c.Hit q then (some c.data, c)
  else
    match radosRead objects (radosXyzoToStoragekey q) headerLen 0 reply with
    | .error _ => (none, { c with x := -1, y := -1, z := -1 })
    | .ok bytes =>
        (some (c.fill bytes), { c with
          data := c.fill bytes
          length_data := c.length_fill bytes
          x := origin q.x
          y := origin q.y
          z := q.z
          xmlname := Bytes.strncpy (n := 40) (k := 1) q.xmlconfig c.xmlname })

/-! ### Tiles -/

/-- The place of a tile in the index. -/
def Tile.offset (q : Tile) : ℕ := MetaTile.xyzToMetaOffset q.x q.y

theorem Tile.offset_lt (q : Tile) :
  q.offset < metatile * metatile
  := xyzToMetaOffset_lt q.x q.y

/-- The stat of a tile from the header of its object. -/
def statOfHeader (header : List UInt8) (i : ℕ) : StatInfo :=
  { StatInfo.ofBytes header with
    size := (headerInt (header.drop StatInfo.bytesSize)
      (MetaTile.layoutSize + 8 * i + 4)).toInt64 }

/-- What `rados_tile_stat` returns, and the header that is kept after it. -/
def radosTileStat (objects : Objects) (c : MetadataCache) (q : Tile) (reply : Reply) :
    StatInfo × MetadataCache :=
  let r := readMetaData objects c q reply
  match r.1 with
  | none => (.missing, r.2)
  | some header => (statOfHeader header q.offset, r.2)

/-- What happens while a tile is read: whether memory can be allocated, and how the header and
the data are read. -/
structure ReadOutcome where
  allocated : Bool
  header : Reply
  data : Reply

/-- A number of the type `size_t` that is printed as a `long int`. -/
def printedSize (n : ℕ) : List UInt8 := Bytes.signed (Int64.ofNat n).toInt

/-- The text when the data of a tile cannot be read. -/
def dataMessage (key : List UInt8) (offset tileSize : ℕ) (reason : List UInt8) : List UInt8 :=
  Bytes.ofString "Failed to read tile data from rados " ++ key ++ Bytes.ofString " offset: " ++
    printedSize offset ++ Bytes.ofString " length: " ++ printedSize tileSize ++
    Bytes.ofString ": " ++ reason ++ Bytes.ofString "\n"

/-- The result when there is no header. -/
def noMetadata : TileRead :=
  ⟨-3, [], none, logMsg (Bytes.ofString "Failed to read metadata of tile\n")⟩

/-- Reading the data of a tile into a buffer with some bytes in it. -/
def readTileData (objects : Objects) (key : List UInt8) (entry : HeaderEntry) (buf : List UInt8)
    (reply : Reply) : TileRead :=
  let tileSize := toSize entry.size
  let offset := fileOffset entry.offset
  match radosRead objects key tileSize offset reply with
  | .error e => ⟨-1, [], some entry.compressed, logMsg (dataMessage key offset tileSize e.2)⟩
  | .ok bytes =>
      ⟨tileSize, (bytes ++ buf.drop bytes.length).take tileSize, some entry.compressed, none⟩

/-- What `rados_tile_read` returns and stores in a buffer of `sz` bytes, and the header that is
kept after it. -/
def radosTileRead (objects : Objects) (c : MetadataCache) (q : Tile) (buf : List UInt8) (sz : ℕ)
    (o : ReadOutcome) : TileRead × MetadataCache :=
  if !o.allocated then (allocationFailure [], c)
  else
    let r := readMetaData objects c q o.header
    match r.1 with
    | none => (noMetadata, r.2)
    | some header =>
        match checkHeader (header.drop StatInfo.bytesSize) q.offset sz with
        | .error e => (e.tileRead [], r.2)
        | .ok entry => (readTileData objects (radosXyzoToStoragekey q) entry buf o.data, r.2)

/-! ### Metatiles -/

/-- What `rados_metatile_write` returns, and the objects after it. -/
def radosMetatileWrite (objects : Objects) (q : Tile) (buf : List UInt8) (sz : Int32)
    (o : WriteOutcome) : ℤ × Objects :=
  if !o.allocated || decide (2 ^ 31 ≤ sz.toInt + StatInfo.bytesSize) then (-1, objects)
  else if !o.accepted then (-1, objects)
  else
    (sz.toInt, Function.update objects (radosXyzoToStoragekey q)
      (some (writtenValue buf sz o)))

/-- The tile for which metatiles are deleted and expired, without options. -/
def plainTile (xmlconfig : List UInt8) (x y z : Int32) : Tile := ⟨xmlconfig, [], x, y, z⟩

/-- What `rados_metatile_delete` returns, and the objects after it. -/
def radosMetatileDelete (objects : Objects) (xmlconfig : List UInt8) (x y z : Int32)
    (accepted : Bool) : ℤ × Objects :=
  let key := radosXyzoToStoragekey (plainTile xmlconfig x y z)
  if accepted && (objects key).isSome then (0, Function.update objects key none)
  else (-1, objects)

/-- What happens while a metatile is expired: how the structure is read, the memory into which it
is read, and whether the pool accepts what is written. -/
structure ExpireOutcome where
  stat : Reply
  memory : List.Vector UInt8 StatInfo.bytesSize
  accepted : Bool

/-- What `rados_metatile_expire` returns, and the objects after it. -/
def radosMetatileExpire (objects : Objects) (xmlconfig : List UInt8) (x y z : Int32)
    (o : ExpireOutcome) : ℤ × Objects :=
  let key := radosXyzoToStoragekey (plainTile xmlconfig x y z)
  match radosRead objects key StatInfo.bytesSize 0 o.stat with
  | .error e => (if e.1 = enoent then -1 else -2, objects)
  | .ok bytes =>
      let stat := StatInfo.setExpired (bytes ++ o.memory.toList.drop bytes.length)
      if o.accepted then
        (0, Function.update objects key
          (some (stat ++ ((objects key).getD []).drop StatInfo.bytesSize)))
      else (-3, objects)

variable {objects : Objects} {c : MetadataCache} {q : Tile} {reply : Reply}
  {buf xmlconfig : List UInt8} {sz : ℕ} {o : ReadOutcome} {x y z : Int32}

theorem radosTileStat_cache :
  (radosTileStat objects c q reply).2 = (readMetaData objects c q reply).2
  := by
  rw [radosTileStat]
  split
  · rfl
  · rfl

theorem radosTileRead_cache (h : o.allocated = true) :
  (radosTileRead objects c q buf sz o).2 = (readMetaData objects c q o.header).2
  := by
  rw [radosTileRead, h, if_neg (by simp)]
  dsimp only
  split
  · rfl
  · split
    · rfl
    · rfl

/-- A write changes one object at most. -/
theorem exists_write (objects : Objects) (q : Tile) (buf : List UInt8) (sz : Int32)
    (o : WriteOutcome) :
  ∃ object, (radosMetatileWrite objects q buf sz o).2 =
    Function.update objects (radosXyzoToStoragekey q) object
  := by
  rw [radosMetatileWrite]
  split_ifs
  · exact ⟨_, (Function.update_eq_self _ _).symm⟩
  · exact ⟨_, (Function.update_eq_self _ _).symm⟩
  · exact ⟨_, rfl⟩

/-- A write that is accepted stores its object. -/
theorem write_accepted {sz : Int32} {o : WriteOutcome} (hallocated : o.allocated = true)
    (haccepted : o.accepted = true) (hsz : sz.toInt + StatInfo.bytesSize < 2 ^ 31) :
  (radosMetatileWrite objects q buf sz o).2 (radosXyzoToStoragekey q) =
    some (writtenValue buf sz o)
  := by
  rw [radosMetatileWrite, hallocated, haccepted, if_neg, if_neg (by simp)]
  · apply Function.update_self
  · simpa using hsz

/-- A delete changes one object at most. -/
theorem exists_delete (objects : Objects) (xmlconfig : List UInt8) (x y z : Int32)
    (accepted : Bool) :
  ∃ object, (radosMetatileDelete objects xmlconfig x y z accepted).2 =
    Function.update objects (radosXyzoToStoragekey (plainTile xmlconfig x y z)) object
  := by
  rw [radosMetatileDelete]
  split_ifs
  · exact ⟨_, rfl⟩
  · exact ⟨_, (Function.update_eq_self _ _).symm⟩

/-- An expire changes one object at most. -/
theorem exists_expire (objects : Objects) (xmlconfig : List UInt8) (x y z : Int32)
    (o : ExpireOutcome) :
  ∃ object, (radosMetatileExpire objects xmlconfig x y z o).2 =
    Function.update objects (radosXyzoToStoragekey (plainTile xmlconfig x y z)) object
  := by
  rw [radosMetatileExpire]
  dsimp only
  split
  · exact ⟨_, (Function.update_eq_self _ _).symm⟩
  · split_ifs
    · exact ⟨_, rfl⟩
    · exact ⟨_, (Function.update_eq_self _ _).symm⟩

/-! ### What the object for a tile says -/

/-- The stat of a tile by its object. -/
def statOf (object : Option (List UInt8)) (i : ℕ) : StatInfo :=
  match object with
  | none => .missing
  | some bytes => statOfHeader (bytes.take headerLen) i

/-- The result of reading a tile from its object. -/
def readOf (object : Option (List UInt8)) (i sz : ℕ) : TileRead :=
  match object with
  | none => noMetadata
  | some bytes =>
      match checkHeader ((bytes.take headerLen).drop StatInfo.bytesSize) i sz with
      | .error e => e.tileRead []
      | .ok entry =>
          ⟨toSize entry.size, (bytes.drop (fileOffset entry.offset)).take (toSize entry.size),
            some entry.compressed, none⟩

/-- The header of a metatile in its object. -/
theorem header_value {t : MetaTile} {stat : List UInt8} (ha : t.Aligned) (hs : t.Small)
    (hstat : stat.length = StatInfo.bytesSize) :
  ((stat ++ t.metatilebuffer).take headerLen).drop StatInfo.bytesSize = t.layout ++ t.index
  := by
  rw [List.drop_take, headerLen, Nat.add_sub_cancel_left, take_drop_value ha hs hstat]

/-- The stat of a tile has the time and the flag of the structure in its object. -/
theorem statOf_bytes {st : StatInfo} {pad : List.Vector UInt8 4} {i : ℕ} :
  (statOf (some (st.bytes pad ++ buf)) i).mtime = st.mtime ∧
    (statOf (some (st.bytes pad ++ buf)) i).expired = st.expired
  := by
  have hlength : headerLen = (st.bytes pad).length + MetaTile.headerSize := by
    rw [StatInfo.length_bytes]
    rfl
  have hheader : StatInfo.ofBytes ((st.bytes pad ++ buf).take headerLen) = st := by
    rw [hlength, List.take_length_add_append, StatInfo.ofBytes_bytes]
  rw [statOf, statOfHeader, hheader]
  use rfl

/-- The tile of a metatile is read from its object. -/
theorem readOf_metatile {t : MetaTile} {stat : List UInt8} {i : ℕ} (ha : t.Aligned) (hs : t.Small)
    (hi : i < metatile * metatile) (hstat : stat.length = StatInfo.bytesSize)
    (hsz : (t.tileAt i).length ≤ sz) :
  readOf (some (stat ++ t.metatilebuffer)) i sz =
    ⟨(t.tileAt i).length, t.tileAt i, some 0, none⟩
  := by
  obtain ⟨-, hsize⟩ := MetaTile.toInt_entryAt hs hi
  rw [readOf, header_value ha hs hstat, checkHeader_metatile ha hs hi hsz]
  dsimp only
  rw [tile_of_value ha hs hi hstat, StoreFile.toSize_of_nonneg hsize]

/-! ### Runs -/

/-- The objects of the pool and the header that a context keeps, with the key of the object that
the header is from, if that has not been changed since. -/
structure State where
  objects : Objects
  cache : MetadataCache
  source : Option (List UInt8)

/-- The calls of any context that change objects, and those of one context that read them. -/
inductive Action where
  | write (q : Tile) (buf : List UInt8) (sz : Int32) (o : WriteOutcome)
  | expire (xmlconfig : List UInt8) (x y z : Int32) (o : ExpireOutcome)
  | delete (xmlconfig : List UInt8) (x y z : Int32) (accepted : Bool)
  | stat (q : Tile) (reply : Reply)
  | read (q : Tile) (buf : List UInt8) (sz : ℕ) (o : ReadOutcome)

namespace State

/-- The pool has some objects, and `init_storage_rados` has made a context from some memory. -/
def init (objects : Objects) (data : List.Vector UInt8 headerLen) (xmlname : XmlconfigArray)
    (behind : List UInt8) : State where
  objects := objects
  cache :=
    { data := data.toList
      length_data := data.toList_length
      x := -1
      y := -1
      z := -1
      xmlname := xmlname.set ⟨0, xmlconfigMax_pos⟩ 0
      behind := behind }
  source := none

/-- The object for a key may have changed. -/
def change (s : State) (key : List UInt8) (objects : Objects) : State where
  objects := objects
  cache := s.cache
  source := if s.source = some key then none else s.source

@[simp]
theorem objects_change {s : State} {key : List UInt8} :
  (s.change key objects).objects = objects
  := rfl

/-- The key of the object that the header is from after a header has been read. -/
def sourceAfter (s : State) (q : Tile) (reply : Reply) : Option (List UInt8) :=
  if s.cache.Hit q then s.source
  else
    match radosRead s.objects (radosXyzoToStoragekey q) headerLen 0 reply with
    | .error _ => none
    | .ok _ => some (radosXyzoToStoragekey q)

/-- The state after a call. -/
def step (s : State) : Action → Option State
  | .write q buf sz o =>
      some (s.change (radosXyzoToStoragekey q) (radosMetatileWrite s.objects q buf sz o).2)
  | .expire xmlconfig x y z o =>
      some (s.change (radosXyzoToStoragekey (plainTile xmlconfig x y z))
        (radosMetatileExpire s.objects xmlconfig x y z o).2)
  | .delete xmlconfig x y z accepted =>
      some (s.change (radosXyzoToStoragekey (plainTile xmlconfig x y z))
        (radosMetatileDelete s.objects xmlconfig x y z accepted).2)
  | .stat q reply =>
      some ⟨s.objects, (radosTileStat s.objects s.cache q reply).2, s.sourceAfter q reply⟩
  | .read q buf sz o =>
      some ⟨s.objects, (radosTileRead s.objects s.cache q buf sz o).2,
        if o.allocated then s.sourceAfter q o.header else s.source⟩

/-- The header is used for a tile only when it is from the object of that tile, which has not
been changed since, and is else delivered as a whole. -/
structure HeaderCurrent (s : State) (q : Tile) (reply : Reply) : Prop where
  hit : s.cache.Hit q → s.source = some (radosXyzoToStoragekey q)
  miss : ¬ s.cache.Hit q →
    reply.Delivers (s.objects (radosXyzoToStoragekey q)) headerLen 0

/-- The condition on a call: the header of the object is known, and the bytes of the tile that
the header promises are delivered. -/
def Current (s : State) : Action → Prop
  | .stat q reply => s.HeaderCurrent q reply
  | .read q _ sz o => o.allocated = true → s.HeaderCurrent q o.header ∧
      ∀ bytes entry, s.objects (radosXyzoToStoragekey q) = some bytes →
        checkHeader ((bytes.take headerLen).drop StatInfo.bytesSize) q.offset sz = .ok entry →
        o.data.Delivers (some bytes) (toSize entry.size) (fileOffset entry.offset)
  | _ => True

/-- The header that is kept, as a copy of a part of an object. -/
def copy (s : State) : CachedEntry (List UInt8) (List UInt8) := ⟨s.source, s.cache.data⟩

/-- The header that is kept is the one of the object that it is from. -/
def Coherent (s : State) : Prop := s.copy.Current (List.take headerLen) s.objects

variable {s s' : State} {q : Tile} {reply : Reply} {objects : Objects} {key : List UInt8}

theorem coherent_init {data : List.Vector UInt8 headerLen} {xmlname : XmlconfigArray}
    {behind : List UInt8} :
  (init objects data xmlname behind).Coherent
  := CachedEntry.current_none

/-- A change of one object keeps the header coherent. -/
theorem Coherent.change (h : s.Coherent)
    (hobjects : ∃ object, objects = Function.update s.objects key object) :
  (s.change key objects).Coherent
  := by
  obtain ⟨object, rfl⟩ := hobjects
  apply CachedEntry.Current.disown h

/-- A header that is got is the one of the object, and is kept as such.  None is got when there
is no object or the call fails. -/
theorem Coherent.readMetaData_cases (h : s.Coherent) (hcurrent : s.HeaderCurrent q reply) :
  (∃ object, s.objects (radosXyzoToStoragekey q) = some object ∧
    (readMetaData s.objects s.cache q reply).1 = some (object.take headerLen) ∧
    (readMetaData s.objects s.cache q reply).2.data = object.take headerLen ∧
    s.sourceAfter q reply = some (radosXyzoToStoragekey q)) ∨
  ((readMetaData s.objects s.cache q reply).1 = none ∧ s.sourceAfter q reply = none ∧
    (reply.Answers → s.objects (radosXyzoToStoragekey q) = none))
  := by
  rw [readMetaData, sourceAfter]
  split_ifs with hhit
  · left
    obtain ⟨object, hobject, hdata⟩ := h _ (hcurrent.hit hhit)
    exact ⟨object, hobject, congrArg some hdata, hdata, hcurrent.hit hhit⟩
  · cases hread : radosRead s.objects (radosXyzoToStoragekey q) headerLen 0 reply with
    | error e =>
        right
        exact ⟨rfl, rfl, radosRead_error hread⟩
    | ok bytes =>
        left
        obtain ⟨object, hobject, hbytes, hlength⟩ := radosRead_ok hread (hcurrent.miss hhit)
        rw [List.drop_zero] at hbytes
        dsimp only
        rw [MetadataCache.fill_of_length hlength, hbytes]
        exact ⟨object, hobject, rfl, rfl, rfl⟩

/-- Reading a header keeps it coherent. -/
theorem Coherent.read (h : s.Coherent) (hcurrent : s.HeaderCurrent q reply) :
  Coherent ⟨s.objects, (readMetaData s.objects s.cache q reply).2, s.sourceAfter q reply⟩
  := by
  rw [Coherent, copy]
  dsimp only
  rcases h.readMetaData_cases hcurrent with ⟨object, hobject, -, hdata, hsource⟩ | ⟨-, hsource, -⟩
  · rw [hsource, hdata]
    apply CachedEntry.current_part hobject
  · rw [hsource]
    apply CachedEntry.current_none

/-- The header that is used for a tile is the one of its object. -/
theorem Coherent.header (h : s.Coherent) (hcurrent : s.HeaderCurrent q reply)
    (hanswers : reply.Answers) :
  (readMetaData s.objects s.cache q reply).1 =
    (s.objects (radosXyzoToStoragekey q)).map (List.take headerLen)
  := by
  rcases h.readMetaData_cases hcurrent with ⟨object, hobject, hheader, -⟩ | ⟨hheader, -, hnone⟩
  · rw [hheader, hobject, Option.map_some]
  · rw [hheader, hnone hanswers, Option.map_none]

/-- Every call that meets the condition keeps the header coherent. -/
theorem step_coherent {a : Action} (h : s.Coherent) (hcurrent : s.Current a)
    (hstep : s.step a = some s') :
  s'.Coherent
  := by
  cases a with
  | write q buf sz o =>
      obtain rfl := Option.some.inj hstep
      apply h.change (exists_write s.objects q buf sz o)
  | expire xmlconfig x y z o =>
      obtain rfl := Option.some.inj hstep
      apply h.change (exists_expire s.objects xmlconfig x y z o)
  | delete xmlconfig x y z accepted =>
      obtain rfl := Option.some.inj hstep
      apply h.change (exists_delete s.objects xmlconfig x y z accepted)
  | stat q reply =>
      obtain rfl := Option.some.inj hstep
      rw [radosTileStat_cache]
      apply h.read hcurrent
  | read q buf sz o =>
      obtain rfl := Option.some.inj hstep
      cases hallocated : o.allocated with
      | true =>
          rw [radosTileRead_cache hallocated]
          apply h.read (hcurrent hallocated).1
      | false =>
          rw [radosTileRead, hallocated]
          apply h

theorem reach_coherent {data : List.Vector UInt8 headerLen} {xmlname : XmlconfigArray}
    {behind : List UInt8} (h : Reach step Current (init objects data xmlname behind) s) :
  s.Coherent
  := by
  apply h.invariant coherent_init
  intro s a s' hs hcurrent hstep
  apply step_coherent hs hcurrent hstep

/-- The stat of a tile is the one by its object. -/
theorem Coherent.stat (h : s.Coherent) (hcurrent : s.HeaderCurrent q reply)
    (hanswers : reply.Answers) :
  (radosTileStat s.objects s.cache q reply).1 =
    statOf (s.objects (radosXyzoToStoragekey q)) q.offset
  := by
  rw [radosTileStat]
  rw [h.header hcurrent hanswers]
  cases s.objects (radosXyzoToStoragekey q) with
  | none => rfl
  | some object => rfl

/-- The data of a tile is that in its object. -/
theorem readTileData_eq {entry : HeaderEntry} {object : List UInt8}
    (hobject : objects key = some object) (hanswers : reply.Answers)
    (hdelivers : reply.Delivers (some object) (toSize entry.size) (fileOffset entry.offset)) :
  readTileData objects key entry buf reply =
    ⟨toSize entry.size, (object.drop (fileOffset entry.offset)).take (toSize entry.size),
      some entry.compressed, none⟩
  := by
  rw [readTileData]
  cases hread : radosRead objects key (toSize entry.size) (fileOffset entry.offset) reply with
  | error e =>
      rw [radosRead_error hread hanswers] at hobject
      contradiction
  | ok bytes =>
      rw [← hobject] at hdelivers
      obtain ⟨object', hobject', hbytes, hlength⟩ := radosRead_ok hread hdelivers
      rw [hobject] at hobject'
      obtain rfl := Option.some.inj hobject'
      dsimp only
      rw [List.take_left' hlength, hbytes]

/-- The result of reading a tile is the one by its object. -/
theorem Coherent.readTile (h : s.Coherent) (hallocated : o.allocated = true)
    (hcurrent : s.Current (.read q buf sz o)) (hheader : o.header.Answers)
    (hdata : o.data.Answers) :
  (radosTileRead s.objects s.cache q buf sz o).1 =
    readOf (s.objects (radosXyzoToStoragekey q)) q.offset sz
  := by
  obtain ⟨hcurrent, hdelivers⟩ := hcurrent hallocated
  rw [radosTileRead, hallocated, if_neg (by simp)]
  dsimp only
  rw [h.header hcurrent hheader]
  cases hobject : s.objects (radosXyzoToStoragekey q) with
  | none => rfl
  | some object =>
      rw [Option.map_some, readOf]
      dsimp only
      cases hcheck : checkHeader ((object.take headerLen).drop StatInfo.bytesSize) q.offset sz with
      | error e => rfl
      | ok entry =>
          apply readTileData_eq hobject hdata
          apply hdelivers object entry hobject hcheck

end State

/-- In every run in which a header is used for a tile only while it is the one of the tile's own
object, and in which the bytes are delivered that are asked for, the results are those by the
objects that are there. -/
theorem reads_current {data : List.Vector UInt8 headerLen} {xmlname : XmlconfigArray}
    {behind : List UInt8} {s : State}
    (h : Reach State.step State.Current (State.init objects data xmlname behind) s) :
  (∀ q reply, s.Current (.stat q reply) → reply.Answers →
    (radosTileStat s.objects s.cache q reply).1 =
      statOf (s.objects (radosXyzoToStoragekey q)) q.offset) ∧
  ∀ q buf sz o, s.Current (.read q buf sz o) → o.allocated = true → o.header.Answers →
    o.data.Answers →
    (radosTileRead s.objects s.cache q buf sz o).1 =
      readOf (s.objects (radosXyzoToStoragekey q)) q.offset sz
  := by
  have hs := State.reach_coherent h
  constructor
  · intro q reply hcurrent hanswers
    apply hs.stat hcurrent hanswers
  · intro q buf sz o hcurrent hallocated hheader hdata
    apply hs.readTile hallocated hcurrent hheader hdata

/-- A tile of a metatile is read as a whole when nothing is kept for it. -/
theorem current_read {s : State} {t : MetaTile} {stat : List UInt8} {n m : ℕ} (ha : t.Aligned)
    (hs : t.Small) (hstat : stat.length = StatInfo.bytesSize)
    (hobject : s.objects (radosXyzoToStoragekey q) = some (stat ++ t.metatilebuffer))
    (hhit : ¬ s.cache.Hit q) (hn : headerLen ≤ n) (hm : (t.tileAt q.offset).length ≤ m)
    (hsz : (t.tileAt q.offset).length ≤ sz) :
  s.Current (.read q buf sz ⟨true, .upTo n, .upTo m⟩)
  := by
  have hi := q.offset_lt
  intro _
  rw [hobject]
  constructor
  · constructor
    case hit => exact fun h => absurd h hhit
    case miss =>
      rintro _ _ bytes ⟨⟩ hbytes
      rw [hobject] at hbytes
      obtain rfl := Option.some.inj hbytes
      use hn
      rw [Nat.zero_add]
      apply headerLen_le_length ha hs hstat
  · rintro bytes entry ⟨⟩ hentry _ _ ⟨⟩ ⟨⟩
    rw [header_value ha hs hstat, checkHeader_metatile ha hs hi hsz] at hentry
    obtain rfl := Except.ok.inj hentry
    use (StoreFile.toSize_of_nonneg (MetaTile.toInt_entryAt hs hi).2).trans_le hm
    apply tile_end_le ha hs hi hstat

/-- A tile, and a context that has just been made. -/
def sampleTile : Tile := ⟨Bytes.ofString "default", [], 11, 17, 5⟩

def sampleState : State :=
  State.init (fun _ => none) (List.Vector.replicate headerLen 0)
    (List.Vector.replicate xmlconfigMax 0) [0]

/-- The metatile of the tile is written. -/
def sampleOutcome : WriteOutcome := ⟨true, true, 7, List.Vector.replicate 4 0⟩

def sampleWrite : Action :=
  .write sampleTile StoreFile.sampleMetaTile.metatilebuffer 535 sampleOutcome

def sampleWritten : State :=
  sampleState.change (radosXyzoToStoragekey sampleTile) (radosMetatileWrite sampleState.objects
    sampleTile StoreFile.sampleMetaTile.metatilebuffer 535 sampleOutcome).2

/-- The tile is read from the metatile that has been written. -/
theorem reads_current_sample :
  ∃ s, Reach State.step State.Current sampleState s ∧
    (radosTileRead s.objects s.cache sampleTile [] 100 ⟨true, .upTo 600, .upTo 3⟩).1 =
      ⟨3, Bytes.ofString "PNG", some 0, none⟩
  := by
  have hsz : (StoreFile.sampleMetaTile.tileAt sampleTile.offset).length ≤ 3 := by
    decide +kernel
  have hreach : Reach State.step State.Current sampleState sampleWritten :=
    Reach.tail sampleWrite Reach.refl trivial rfl
  have hobject : sampleWritten.objects (radosXyzoToStoragekey sampleTile) =
      some (writtenValue StoreFile.sampleMetaTile.metatilebuffer 535 sampleOutcome) := by
    rw [sampleWritten, State.objects_change]
    apply write_accepted (o := sampleOutcome) rfl rfl
    decide
  have hcurrent : sampleWritten.Current (.read sampleTile [] 100 ⟨true, .upTo 600, .upTo 3⟩) := by
    apply current_read StoreFile.aligned_sampleMetaTile StoreFile.small_sampleMetaTile
      StatInfo.length_bytes hobject _ (by decide) hsz (by omega)
    decide +kernel
  use sampleWritten, hreach
  rw [(reads_current hreach).2 sampleTile [] 100 _ hcurrent rfl ⟨_, rfl⟩ ⟨_, rfl⟩, hobject,
    writtenValue, readOf_metatile StoreFile.aligned_sampleMetaTile StoreFile.small_sampleMetaTile
      sampleTile.offset_lt StatInfo.length_bytes]
  · decide +kernel
  · apply hsz.trans (by decide)

/-- After a stat of a tile, a tile with options is found although there is none, and the tile is
not expired although its object is. -/
theorem stale_header :
  ∃ s t, Reach State.step anyStep sampleState s ∧ Reach State.step anyStep sampleState t ∧
    (s.objects (radosXyzoToStoragekey { sampleTile with options := Bytes.ofString "de" }) = none ∧
      (radosTileStat s.objects s.cache { sampleTile with options := Bytes.ofString "de" }
        (.upTo headerLen)).1.mtime = 7) ∧
    (statOf (t.objects (radosXyzoToStoragekey sampleTile)) sampleTile.offset).expired = 1 ∧
      (radosTileStat t.objects t.cache sampleTile (.upTo headerLen)).1.expired = 0
  := by
  have hs : (run State.step (fun _ _ => true) sampleState
      [sampleWrite, .stat sampleTile (.upTo headerLen)]).map (fun s =>
        (s.objects (radosXyzoToStoragekey { sampleTile with options := Bytes.ofString "de" }),
          (radosTileStat s.objects s.cache { sampleTile with options := Bytes.ofString "de" }
            (.upTo headerLen)).1.mtime)) = some (none, 7) := by
    decide +kernel
  have ht : (run State.step (fun _ _ => true) sampleState
      [sampleWrite, .stat sampleTile (.upTo headerLen), .expire (Bytes.ofString "default") 11 17 5
        ⟨.upTo 40, List.Vector.replicate _ 0, true⟩]).map (fun s =>
        ((statOf (s.objects (radosXyzoToStoragekey sampleTile)) sampleTile.offset).expired,
          (radosTileStat s.objects s.cache sampleTile (.upTo headerLen)).1.expired)) =
            some (1, 0) := by
    decide +kernel
  obtain ⟨s, hrun, hs⟩ := Option.map_eq_some_iff.mp hs
  obtain ⟨t, hrun', ht⟩ := Option.map_eq_some_iff.mp ht
  refine ⟨s, t, reach_of_run hrun (fun _ _ _ => trivial), reach_of_run hrun' (fun _ _ _ => trivial),
    ?_, ?_⟩
  · apply Prod.mk.inj hs
  · apply Prod.mk.inj ht

end StoreRados
