import ModTile.Bytes.ReadLoop
import ModTile.Metatile
import ModTile.StoreFileUtils

/-!
# The file store

Writing a metatile to a file and reading a tile from it, as in `store_file.c`.  A metatile is
written to a temporary file, which is then renamed.  A tile is read by way of the index of
its metatile.

The files are given by their contents.  Which calls of the operating system succeed is given
by a `WriteOutcome` or a `ReadOutcome`.
-/

open StoreFileUtils (xyzoToMeta)

/-- The contents of the files. -/
abbrev Files := List UInt8 → Option (List UInt8)

namespace StoreFile

/-! ### Writing -/

/-- What happens while a metatile is written: whether the name of the temporary file can be
allocated, the number of the thread, whether the directories can be made and the temporary
file opened, what `write` returns, and whether the file can be renamed. -/
structure WriteOutcome where
  allocated : Bool
  thread : ℕ
  mkdirp : Bool
  opened : Bool
  written : ℤ
  renamed : Bool

/-- The name of the temporary file. -/
def tmpPath (metaPath : List UInt8) (thread : ℕ) : List UInt8 :=
  (metaPath ++ (Bytes.ofString "." ++ Bytes.decimal thread)).take (metaPath.length + 23)

/-- What `file_metatile_write` returns, and the files after it. -/
def fileMetatileWrite (tileDir : List UInt8) (files : Files) (xmlconfig options : List UInt8)
    (x y z : Int32) (buf : List UInt8) (sz : Int32) (o : WriteOutcome) : ℤ × Files :=
  let metaPath := (xyzoToMeta pathMax tileDir xmlconfig options x y z).1
  let tmp := tmpPath metaPath o.thread
  if o.allocated && o.mkdirp && o.opened then
    let files := Function.update files tmp (some (buf.take o.written.toNat))
    if o.written ≠ sz.toInt then (-1, files)
    else if o.renamed then
      (sz.toInt, Function.update (Function.update files metaPath (files tmp)) tmp none)
    else (-1, Function.update files tmp none)
  else (-1, files)

/-- What `metaTile::save` does with the file store: whether the metatile has been written, and
the files after it. -/
def save (t : MetaTile) (tileDir : List UInt8) (files : Files) (allocated : Bool)
    (o : WriteOutcome) : Bool × Files :=
  if allocated then
    let (ret, files) := fileMetatileWrite tileDir files t.xmlconfig t.options t.x t.y t.z
      t.metatilebuffer (Int32.ofInt t.length) o
    (ret = t.length, files)
  else (false, files)

/-! ### Reading -/

/-- What happens while a tile is read: whether the header can be allocated and the file opened,
how much each call of `read` delivers, whether `lseek` succeeds, and the text for the error of
the operating system. -/
structure ReadOutcome where
  allocated : Bool
  opened : Bool
  delivery : ℕ → Option ℕ
  seeks : Bool
  reason : List UInt8

/-- Nothing fails while the tile is read. -/
structure ReadOutcome.Undisturbed (o : ReadOutcome) : Prop where
  allocated : o.allocated = true
  opened : o.opened = true
  delivery : ∀ call, o.delivery call ≠ none
  seeks : o.seeks = true

/-- The reasons why a tile is not read. -/
inductive ReadError where
  | allocation
  | opening (path reason : List UInt8)
  | headerRead (path reason : List UInt8)
  | tooSmall (path : List UInt8)
  | magicMismatch (path : List UInt8)
  | badCount (path : List UInt8) (count : Int32)
  | truncating (tileSize : Int32) (sz : ℕ)
  | seeking (path reason : List UInt8)
  | dataRead (path reason : List UInt8)

namespace ReadError

/-- The value that is returned for an error. -/
def ret : ReadError → ℤ
  | allocation | opening .. => -1
  | headerRead .. => -2
  | tooSmall .. => -3
  | magicMismatch .. => -4
  | badCount .. => -5
  | truncating .. => -6
  | seeking .. => -7
  | dataRead .. => -8

/-- The text that is logged for an error. -/
def message : ReadError → List UInt8
  | allocation => Bytes.ofString "Failed to allocate memory for metatile header\n"
  | opening path reason =>
      Bytes.ofString "Could not open metatile " ++ path ++ Bytes.ofString ". Reason: " ++ reason ++
        Bytes.ofString "\n"
  | headerRead path reason =>
      Bytes.ofString "Failed to read complete header for metatile " ++ path ++
        Bytes.ofString " Reason: " ++ reason ++ Bytes.ofString "\n"
  | tooSmall path =>
      Bytes.ofString "Meta file " ++ path ++ Bytes.ofString " too small to contain header\n"
  | magicMismatch path =>
      Bytes.ofString "Meta file " ++ path ++ Bytes.ofString " header magic mismatch\n"
  | badCount path count =>
      Bytes.ofString "Meta file " ++ path ++ Bytes.ofString " header bad count " ++
        Bytes.signed count.toInt ++ Bytes.ofString " != " ++ Bytes.signed (metatile * metatile) ++
        Bytes.ofString "\n"
  | truncating tileSize sz =>
      Bytes.ofString "Truncating tile " ++ Bytes.signed tileSize.toInt ++
        Bytes.ofString " to fit buffer of " ++ Bytes.signed sz ++ Bytes.ofString "\n"
  | seeking path reason =>
      Bytes.ofString "Meta file " ++ path ++ Bytes.ofString " seek error: " ++ reason ++
        Bytes.ofString "\n"
  | dataRead path reason =>
      Bytes.ofString "Failed to read data from file " ++ path ++ Bytes.ofString ". Reason: " ++
        reason ++ Bytes.ofString "\n"

end ReadError

/-- What `file_tile_read` returns and stores: the bytes in the buffer, the variable `compressed`
if it is set, and the message. -/
structure TileRead where
  ret : ℤ
  buf : List UInt8
  compressed : Option ℤ
  logMsg : Option (List UInt8)
  deriving DecidableEq

/-- The result for an error. -/
def TileRead.failure (e : ReadError) (buf : List UInt8) (compressed : Option ℤ) : TileRead where
  ret := e.ret
  buf := buf
  compressed := compressed
  logMsg := some (e.message.take (pathMax - 2))

/-- The value of `compressed` for the magic word of a header. -/
def magicCompressed (header : List UInt8) : Option ℤ :=
  if header.take 4 = Bytes.ofString "META" then some 0
  else if header.take 4 = Bytes.ofString "METZ" then some 1
  else none

/-- The integer at a place of the header. -/
def headerInt (header : List UInt8) (pos : ℕ) : Int32 :=
  (Bytes.getLe32 (header.drop pos)).toInt32

/-- The conversion of an integer to `size_t`. -/
def toSize (n : Int32) : ℕ := (n.toInt % 2 ^ 64).toNat

/-- Reading the data of a tile, after the header has been read with `header.next` calls. -/
def readData (file path : List UInt8) (header : Bytes.ReadRun) (compressed : ℤ)
    (fileOffset tileSize : Int32) (sz : ℕ) (o : ReadOutcome) : TileRead :=
  if toSize tileSize > sz then .failure (.truncating tileSize sz) [] (some compressed)
  else if fileOffset.toInt < 0 || !o.seeks then
    .failure (.seeking path o.reason) [] (some compressed)
  else
    let r := Bytes.readLoop o.delivery header.next (file.drop fileOffset.toInt.toNat)
      (toSize tileSize)
    if r.failed then .failure (.dataRead path o.reason) r.data (some compressed)
    else ⟨r.data.length, r.data, some compressed, none⟩

/-- Reading a tile into a buffer of `sz` bytes. -/
def fileTileRead (tileDir : List UInt8) (files : Files) (xmlconfig options : List UInt8)
    (x y z : Int32) (sz : ℕ) (o : ReadOutcome) : TileRead :=
  let path := (xyzoToMeta pathMax tileDir xmlconfig options x y z).1
  let metaOffset := (xyzoToMeta pathMax tileDir xmlconfig options x y z).2
  if !o.allocated then .failure .allocation [] none
  else
    match if o.opened then files path else none with
    | none => .failure (.opening path o.reason) [] none
    | some file =>
        let header := Bytes.readLoop o.delivery 0 file MetaTile.headerSize
        if header.failed then .failure (.headerRead path o.reason) [] none
        else if header.data.length < MetaTile.headerSize then .failure (.tooSmall path) [] none
        else
          match magicCompressed header.data with
          | none => .failure (.magicMismatch path) [] none
          | some compressed =>
              let count := headerInt header.data 4
              if count ≠ Int32.ofNat (metatile * metatile) then
                .failure (.badCount path count) [] (some compressed)
              else
                let place := MetaTile.layoutSize + 8 * metaOffset.toNat
                readData file path header compressed (headerInt header.data place)
                  (headerInt header.data (place + 4)) sz o

variable {t : MetaTile} {tileDir : List UInt8} {files : Files} {allocated : Bool}
  {w : WriteOutcome} {i : ℕ}

/-! ### What is written -/

/-- The temporary file is another file. -/
theorem tmpPath_ne (metaPath : List UInt8) (thread : ℕ) :
  tmpPath metaPath thread ≠ metaPath
  := by
  intro h
  have hlen := congrArg List.length h
  have hdigits := List.length_pos_iff.mpr (Bytes.decimal_ne_nil (n := thread))
  simp only [tmpPath, List.length_take, List.length_append] at hlen
  omega

/-- Different threads have different temporary files. -/
theorem tmpPath_inj {metaPath : List UInt8} {thread thread' : UInt64}
    (h : tmpPath metaPath thread.toNat = tmpPath metaPath thread'.toNat) :
  thread = thread'
  := by
  have htake : ∀ thread : UInt64, tmpPath metaPath thread.toNat =
      metaPath ++ (Bytes.ofString "." ++ Bytes.decimal thread.toNat) := by
    intro thread
    have hdigits : (Bytes.decimal thread.toNat).length ≤ 20 := by
      apply Bytes.length_decimal_le (by decide)
      have hlt := thread.toNat_lt
      omega
    apply List.take_of_length_le
    rw [List.length_append, List.length_append, show (Bytes.ofString ".").length = 1 from rfl]
    omega
  rw [htake, htake] at h
  apply UInt64.toNat_inj.mp
  apply Bytes.decimal_injective
  apply List.append_cancel_left (List.append_cancel_left h)

/-- When the number of bytes is returned, the file has these bytes. -/
theorem file_of_fileMetatileWrite {xmlconfig options buf : List UInt8} {x y z sz : Int32}
    (h : (fileMetatileWrite tileDir files xmlconfig options x y z buf sz w).1 = buf.length) :
  (fileMetatileWrite tileDir files xmlconfig options x y z buf sz w).2
    (xyzoToMeta pathMax tileDir xmlconfig options x y z).1 = some buf
  := by
  rw [fileMetatileWrite] at h ⊢
  dsimp only at h ⊢
  split_ifs at h ⊢ with hopened hwritten hrenamed
  · dsimp only at h
    omega
  · rw [ne_eq, not_not] at hwritten
    dsimp only at h ⊢
    rw [Function.update_of_ne (tmpPath_ne _ _).symm, Function.update_self, Function.update_self,
      hwritten, h, Int.toNat_natCast, List.take_length]
  · dsimp only at h
    omega
  · dsimp only at h
    omega

/-- A metatile that has been saved is in its file. -/
theorem file_of_save (ha : t.Aligned) (hs : t.Small)
    (h : (save t tileDir files allocated w).1 = true) :
  (save t tileDir files allocated w).2
      (xyzoToMeta pathMax tileDir t.xmlconfig t.options t.x t.y t.z).1 =
    some t.metatilebuffer
  := by
  rw [save] at h ⊢
  split_ifs at h ⊢
  apply file_of_fileMetatileWrite
  rw [of_decide_eq_true h, MetaTile.length_eq_length_metatilebuffer ha hs]

/-! ### What is read -/

/-- The header of the file of a metatile. -/
theorem take_metatilebuffer (ha : t.Aligned) (hs : t.Small) :
  t.metatilebuffer.take MetaTile.headerSize = t.layout ++ t.index
  := by
  rw [MetaTile.metatilebuffer_eq ha hs, List.take_left' MetaTile.length_header]

theorem magicCompressed_layout :
  magicCompressed (t.layout ++ t.index) = some 0
  := by
  apply if_pos
  rfl

theorem headerInt_append {front back : List UInt8} {pos : ℕ} (n : Int32)
    (h : front.length = pos) :
  headerInt (front ++ (Bytes.le32 n.toUInt32 ++ back)) pos = n
  := by
  rw [headerInt, List.drop_left' h, Bytes.getLe32_le32]
  rfl

theorem headerInt_count :
  headerInt (t.layout ++ t.index) 4 = Int32.ofNat (metatile * metatile)
  := by
  rw [MetaTile.layout]
  simp only [List.append_assoc]
  apply headerInt_append (Int32.ofNat (metatile * metatile))
  rfl

/-- The header has the entries of the index. -/
theorem headerInt_entry (hi : i < metatile * metatile) :
  headerInt (t.layout ++ t.index) (MetaTile.layoutSize + 8 * i) = (t.offsets i).offset ∧
    headerInt (t.layout ++ t.index) (MetaTile.layoutSize + 8 * i + 4) = (t.offsets i).size
  := by
  obtain ⟨back, hback⟩ := Bytes.exists_blocks_eq (f := fun i => (t.offsets i).bytes) hi
  have hfront : (t.layout ++ Bytes.blocks (fun i => (t.offsets i).bytes) i).length =
      MetaTile.layoutSize + 8 * i := by
    rw [List.length_append, MetaTile.length_layout, Bytes.length_blocks]
    intro i
    simp [Entry.bytes]
  have hindex : t.index = Bytes.blocks (fun i => (t.offsets i).bytes) (metatile * metatile) := rfl
  rw [hindex, hback, Entry.bytes, List.append_assoc, ← List.append_assoc t.layout]
  constructor
  · apply headerInt_append _ hfront
  · rw [← List.append_assoc _ (Bytes.le32 (t.offsets i).offset.toUInt32)]
    apply headerInt_append
    rw [List.length_append, hfront, Bytes.length_le32]

/-- The data of a tile is at its place in the file. -/
theorem drop_metatilebuffer (ha : t.Aligned) (hs : t.Small) (hi : i < metatile * metatile) :
  (t.metatilebuffer.drop (t.start i)).take (t.tileAt i).length = t.tileAt i
  := by
  obtain ⟨back, hback⟩ := Bytes.exists_blocks_eq (f := t.tileAt) hi
  have hfront : (t.layout ++ t.index ++ Bytes.blocks t.tileAt i).length = t.start i := by
    rw [List.length_append, MetaTile.length_header]
    rfl
  rw [MetaTile.metatilebuffer_eq ha hs, MetaTile.dataTo, hback, ← List.append_assoc,
    List.drop_left' hfront, List.take_left]

theorem toSize_of_nonneg {n : Int32} {k : ℕ} (h : n.toInt = k) :
  toSize n = k
  := by
  have := n.toInt_lt
  rw [toSize]
  omega

/-- The header of a file is accepted, and has the given entry for a tile. -/
structure Accepted (file : List UInt8) (metaOffset sz : ℕ) (compressed : ℤ)
    (fileOffset tileSize : Int32) : Prop where
  long : MetaTile.headerSize ≤ file.length
  magic : magicCompressed (file.take MetaTile.headerSize) = some compressed
  count : headerInt (file.take MetaTile.headerSize) 4 = Int32.ofNat (metatile * metatile)
  offset : headerInt (file.take MetaTile.headerSize) (MetaTile.layoutSize + 8 * metaOffset) =
    fileOffset
  size : headerInt (file.take MetaTile.headerSize) (MetaTile.layoutSize + 8 * metaOffset + 4) =
    tileSize
  fits : toSize tileSize ≤ sz
  nonneg : 0 ≤ fileOffset.toInt

/-- The bytes of a tile in its file. -/
def tileBytes (file : List UInt8) (fileOffset tileSize : Int32) : List UInt8 :=
  (file.drop fileOffset.toInt.toNat).take (toSize tileSize)

/-- Reading a tile from a file whose header is accepted. -/
theorem fileTileRead_accepted {xmlconfig options file : List UInt8} {x y z : Int32} {sz : ℕ}
    {o : ReadOutcome} {compressed : ℤ} {fileOffset tileSize : Int32} (ho : o.Undisturbed)
    (hfile : files (xyzoToMeta pathMax tileDir xmlconfig options x y z).1 = some file)
    (h : Accepted file (xyzoToMeta pathMax tileDir xmlconfig options x y z).2.toNat sz compressed
      fileOffset tileSize) :
  fileTileRead tileDir files xmlconfig options x y z sz o =
    ⟨(tileBytes file fileOffset tileSize).length, tileBytes file fileOffset tileSize,
      some compressed, none⟩
  := by
  obtain ⟨hheader, hfailed⟩ := Bytes.readLoop_spec ho.delivery 0 file MetaTile.headerSize
  obtain ⟨hdata, hfailed'⟩ := Bytes.readLoop_spec ho.delivery
    (Bytes.readLoop o.delivery 0 file MetaTile.headerSize).next
    (file.drop fileOffset.toInt.toNat) (toSize tileSize)
  have hlong : ¬ (file.take MetaTile.headerSize).length < MetaTile.headerSize := by
    rw [List.length_take, Nat.min_eq_left h.long]
    apply Nat.lt_irrefl
  have hfits := h.fits
  have hnonneg := h.nonneg
  rw [fileTileRead, hfile, ho.allocated, ho.opened, if_neg (by decide), if_pos rfl]
  dsimp only
  rw [hfailed, if_neg (by decide), hheader, if_neg hlong, h.magic]
  dsimp only
  rw [h.count, if_neg (not_not.mpr rfl), h.offset, h.size, readData, ho.seeks,
    if_neg (by omega), if_neg (by simpa using hnonneg)]
  dsimp only
  rw [hfailed', hdata]
  rfl

/-- The header of the file of a metatile is accepted. -/
theorem accepted_metatilebuffer {sz : ℕ} (ha : t.Aligned) (hs : t.Small)
    (hi : i < metatile * metatile) (hsz : (t.tileAt i).length ≤ sz) :
  Accepted t.metatilebuffer i sz 0 (t.offsets i).offset (t.offsets i).size ∧
    tileBytes t.metatilebuffer (t.offsets i).offset (t.offsets i).size = t.tileAt i
  := by
  obtain ⟨hoffset, hsize⟩ := headerInt_entry (t := t) hi
  obtain ⟨htoInt, hlength⟩ := MetaTile.toInt_entryAt hs hi
  rw [← MetaTile.offsets_eq ha hs hi] at htoInt hlength
  constructor
  · constructor
    case long =>
      rw [MetaTile.metatilebuffer_eq ha hs, List.length_append, MetaTile.length_header]
      apply Nat.le_add_right
    case magic => rw [take_metatilebuffer ha hs, magicCompressed_layout]
    case count => rw [take_metatilebuffer ha hs, headerInt_count]
    case offset => rw [take_metatilebuffer ha hs, hoffset]
    case size => rw [take_metatilebuffer ha hs, hsize]
    case fits => rwa [toSize_of_nonneg hlength]
    case nonneg => omega
  · rw [tileBytes, toSize_of_nonneg hlength, htoInt, Int.toNat_natCast,
      drop_metatilebuffer ha hs hi]

/-- The reader and the writer of a metatile agree on the place of a tile in the index. -/
theorem offset_eq_xyzToMetaOffset {xmlconfig options : List UInt8} {x y z : Int32} :
  (xyzoToMeta pathMax tileDir xmlconfig options x y z).2.toNat = MetaTile.xyzToMetaOffset x y
  := by
  apply Int.ofNat.inj
  exact StoreFileUtils.toNat_offset.trans MetaTile.xyzToMetaOffset_eq.symm

/-- The tiles of a metatile have the path of the metatile. -/
theorem path_tile (ha : t.Aligned) (ox oy : Fin metatile) :
  (xyzoToMeta pathMax tileDir t.xmlconfig t.options (t.x + Int32.ofNat ox)
      (t.y + Int32.ofNat oy) t.z).1 =
    (xyzoToMeta pathMax tileDir t.xmlconfig t.options t.x t.y t.z).1
  := by
  have hx := ha.x_mod
  have hy := ha.y_mod
  have hox : ox.1 < 8 := ox.2
  have hoy : oy.1 < 8 := oy.2
  have hhash : StoreFileUtils.hash (t.x + Int32.ofNat ox) (t.y + Int32.ofNat oy) =
      StoreFileUtils.hash t.x t.y := by
    rw [StoreFileUtils.hash_eq_iff, MetaTile.toInt_add_ofNat hx, MetaTile.toInt_add_ofNat hy]
    rw [metatile] at hx hy
    omega
  rw [xyzoToMeta, xyzoToMeta, StoreFileUtils.metaText_eq_iff.mpr ⟨rfl, hhash⟩]

/-- Reading a tile of a metatile that is in its file. -/
theorem fileTileRead_tile {sz : ℕ} {o : ReadOutcome} (ha : t.Aligned) (hs : t.Small)
    (ho : o.Undisturbed)
    (hfile : files (xyzoToMeta pathMax tileDir t.xmlconfig t.options t.x t.y t.z).1 =
      some t.metatilebuffer)
    (ox oy : Fin metatile) (hsz : (t.tile ox oy).length ≤ sz) :
  fileTileRead tileDir files t.xmlconfig t.options (t.x + Int32.ofNat ox)
      (t.y + Int32.ofNat oy) t.z sz o =
    ⟨(t.tile ox oy).length, t.tile ox oy, some 0, none⟩
  := by
  have hi : t.slot (ox, oy) < metatile * metatile := by
    have hox : ox.1 < 8 := ox.2
    have hoy : oy.1 < 8 := oy.2
    rw [ha.slot_eq]
    simp only [metatile]
    omega
  have htile : t.tileAt (t.slot (ox, oy)) = t.tile ox oy := by
    rw [ha.slot_eq, MetaTile.tileAt, MetaTile.order_eq]
  rw [← htile] at hsz ⊢
  obtain ⟨haccepted, hbytes⟩ := accepted_metatilebuffer ha hs hi hsz
  rw [← path_tile ha ox oy] at hfile
  rw [fileTileRead_accepted ho hfile, hbytes]
  rw [offset_eq_xyzToMetaOffset]
  apply haccepted

/-- After a metatile has been saved, each of its tiles is read back with its length, however
the calls of `read` deliver the data, and the ranges in the index lie one after the other
behind the header. -/
theorem tile_round_trip (ha : t.Aligned) (hs : t.Small)
    (hsave : (save t tileDir files allocated w).1 = true) :
  (∀ (ox oy : Fin metatile) (sz : ℕ) (o : ReadOutcome), o.Undisturbed →
    (t.tile ox oy).length ≤ sz →
    fileTileRead tileDir (save t tileDir files allocated w).2 t.xmlconfig t.options
        (t.x + Int32.ofNat ox) (t.y + Int32.ofNat oy) t.z sz o =
      ⟨(t.tile ox oy).length, t.tile ox oy, some 0, none⟩) ∧
    t.Contiguous
  := by
  constructor
  · intro ox oy sz o ho hsz
    apply fileTileRead_tile ha hs ho (file_of_save ha hs hsave) ox oy hsz
  · apply MetaTile.contiguous ha hs

/-- A metatile with one tile that is not empty. -/
def sampleMetaTile : MetaTile where
  xmlconfig := Bytes.ofString "default"
  options := []
  x := 8
  y := 16
  z := 5
  tile ox oy := if ox.1 = 3 ∧ oy.1 = 1 then Bytes.ofString "PNG" else []

theorem aligned_sampleMetaTile :
  sampleMetaTile.Aligned
  := ⟨by decide, by decide⟩

theorem small_sampleMetaTile :
  sampleMetaTile.Small
  := by
  rw [MetaTile.Small]
  decide +kernel

/-- All the calls succeed. -/
def sampleWrite : WriteOutcome where
  allocated := true
  thread := 1
  mkdirp := true
  opened := true
  written := 535
  renamed := true

/-- The tile is read back byte by byte. -/
theorem tile_round_trip_sample :
  (fileTileRead [] (save sampleMetaTile [] (fun _ => none) true sampleWrite).2
      (Bytes.ofString "default") [] 11 17 5 100 ⟨true, true, fun _ => some 1, true, []⟩).buf =
    Bytes.ofString "PNG"
  := by
  have hsave : (save sampleMetaTile [] (fun _ => none) true sampleWrite).1 = true := by
    decide +kernel
  have ho : ReadOutcome.Undisturbed ⟨true, true, fun _ => some 1, true, []⟩ :=
    ⟨rfl, rfl, by simp, rfl⟩
  have h := (tile_round_trip aligned_sampleMetaTile small_sampleMetaTile hsave).1 ⟨3, by decide⟩
    ⟨1, by decide⟩ 100 _ ho (by decide)
  apply congrArg TileRead.buf h

end StoreFile
