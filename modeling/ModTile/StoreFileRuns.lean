import ModTile.FileSystem
import ModTile.StoreFile
import ModTile.Transition
import Mathlib.Data.Set.Operations

/-!
# Metatiles that are written and read at the same time

The system calls of `file_metatile_write` by any number of threads, and of `file_tile_read`, for
one metatile.  A thread writes its temporary file piece by piece and then gives it the name of the
metatile.  A reader opens the file with that name, and reads the header and the data of a tile
from the file that it has opened.

A file that has had the name of the metatile is never written again, as it has none of the
temporary names.  So a reader sees one file that was written as a whole.
-/

open Transition
open StoreFile (TileRead tmpPath tmpPath_ne magicCompressed headerInt toSize fileTileRead
  fileMetatileWrite tileBytes)
open StoreFileUtils (xyzoToMeta)

namespace StoreFileRuns

/-- The metatile that is written and read. -/
structure Metatile where
  tileDir : List UInt8
  xmlconfig : List UInt8
  options : List UInt8
  x : Int32
  y : Int32
  z : Int32

namespace Metatile

/-- The name of its file. -/
def path (m : Metatile) : List UInt8 :=
  (xyzoToMeta pathMax m.tileDir m.xmlconfig m.options m.x m.y m.z).1

/-- The name of the temporary file of a thread, which is given by its `pthread_self`. -/
def tmp (m : Metatile) (thread : UInt64) : List UInt8 := tmpPath m.path thread.toNat

end Metatile

/-- The arguments of a call of `file_tile_read` for a tile of the metatile. -/
structure TileCall (m : Metatile) where
  x : Int32
  y : Int32
  sz : ℕ
  path_eq : (xyzoToMeta pathMax m.tileDir m.xmlconfig m.options x y m.z).1 = m.path
  deriving DecidableEq

/-- The place of the tile in the index. -/
def TileCall.metaOffset {m : Metatile} (q : TileCall m) : ℕ :=
  (xyzoToMeta pathMax m.tileDir m.xmlconfig m.options q.x q.y m.z).2.toNat

/-- How far a thread is with a call of `file_metatile_write`: it has returned from the last one,
if any, it writes the buffer, has written and closed the file, or is going to remove it. -/
inductive Writer where
  | idle (last : Option ℤ)
  | writing (buf : List UInt8) (fd : Inode (List UInt8)) (pos : ℕ)
  | closed (buf : List UInt8)
  | unlinking
  deriving DecidableEq

/-- How far a call of `file_tile_read` is: it has not begun, reads the header, reads the data, or
has returned. -/
inductive Reader (m : Metatile) where
  | idle
  | readHeader (q : TileCall m) (fd : Inode (List UInt8)) (data : List UInt8)
  | readData (q : TileCall m) (fd : Inode (List UInt8)) (compressed : ℤ)
      (fileOffset tileSize : Int32) (data : List UInt8)
  | returned (q : TileCall m) (result : TileRead)
  deriving DecidableEq

/-- The files, the threads, the readers, and the buffers that were written as a whole and then got
the name of the metatile. -/
structure System (m : Metatile) where
  fs : FileSystem (List UInt8) UInt8
  writers : UInt64 → Writer
  readers : ℕ → Reader m
  stored : List (List UInt8)

/-- The system calls, with what they do. -/
inductive Action (m : Metatile) where
  | openTmp (thread : UInt64) (buf : List UInt8) (opened : Bool)
  | write (thread : UInt64) (n : ℕ)
  | written (thread : UInt64) (failed : Bool)
  | rename (thread : UInt64) (renamed : Bool)
  | unlink (thread : UInt64)
  | openFile (reader : ℕ) (q : TileCall m) (allocated opened : Bool) (reason : List UInt8)
  | read (reader : ℕ) (delivery : Option ℕ) (reason : List UInt8)
  | seek (reader : ℕ) (seeks : Bool) (reason : List UInt8)
  | close (reader : ℕ)

variable {m : Metatile}

namespace Reader

/-- The call fails. -/
def failed (q : TileCall m) (e : StoreFile.ReadError) (buf : List UInt8)
    (compressed : Option ℤ) : Reader m :=
  .returned q (.failure e buf compressed)

/-- The data has been read. -/
def finished (q : TileCall m) (compressed : ℤ) (data : List UInt8) : Reader m :=
  .returned q ⟨data.length, data, some compressed, none⟩

/-- After the file has been opened. -/
def opened (fs : FileSystem (List UInt8) UInt8) (q : TileCall m) (allocated opened : Bool)
    (reason : List UInt8) : Reader m :=
  if !allocated then failed q .allocation [] none
  else
    match if opened then fs.names m.path else none with
    | none => failed q (.opening m.path reason) [] none
    | some fd => .readHeader q fd []

/-- After a round of one of the loops that call `read`. -/
def afterRead (fs : FileSystem (List UInt8) UInt8) (delivery : Option ℕ) (reason : List UInt8) :
    Reader m → Option (Reader m)
  | .readHeader q fd data =>
      if MetaTile.headerSize ≤ data.length then none
      else
        match delivery with
        | none => some (failed q (.headerRead m.path reason) [] none)
        | some quota =>
            let rest := (fs.contents fd).drop data.length
            let got := Bytes.readCount quota (MetaTile.headerSize - data.length) rest.length
            if got = 0 then some (failed q (.tooSmall m.path) [] none)
            else some (.readHeader q fd (data ++ rest.take got))
  | .readData q fd compressed fileOffset tileSize data =>
      if toSize tileSize ≤ data.length then none
      else
        match delivery with
        | none => some (failed q (.dataRead m.path reason) data (some compressed))
        | some quota =>
            let rest := (fs.contents fd).drop (fileOffset.toInt.toNat + data.length)
            let got := Bytes.readCount quota (toSize tileSize - data.length) rest.length
            if got = 0 then some (finished q compressed data)
            else some (.readData q fd compressed fileOffset tileSize (data ++ rest.take got))
  | .idle | .returned .. => none

/-- After the header has been checked, and `lseek` called. -/
def afterSeek (seeks : Bool) (reason : List UInt8) : Reader m → Option (Reader m)
  | .readHeader q fd data =>
      if data.length < MetaTile.headerSize then none
      else
        match magicCompressed data with
        | none => some (failed q (.magicMismatch m.path) [] none)
        | some compressed =>
            let count := headerInt data 4
            let place := MetaTile.layoutSize + 8 * q.metaOffset
            let fileOffset := headerInt data place
            let tileSize := headerInt data (place + 4)
            if count ≠ Int32.ofNat (metatile * metatile) then
              some (failed q (.badCount m.path count) [] (some compressed))
            else if toSize tileSize > q.sz then
              some (failed q (.truncating tileSize q.sz) [] (some compressed))
            else if fileOffset.toInt < 0 || !seeks then
              some (failed q (.seeking m.path reason) [] (some compressed))
            else some (.readData q fd compressed fileOffset tileSize [])
  | .idle | .readData .. | .returned .. => none

/-- After the file has been closed. -/
def afterClose : Reader m → Option (Reader m)
  | .readData q _ compressed _ tileSize data =>
      if data.length < toSize tileSize then none else some (finished q compressed data)
  | .idle | .readHeader .. | .returned .. => none

end Reader

namespace System

/-- Nothing has been called, and there are some files, each with one name. -/
def init (m : Metatile) (files : Files) : System m where
  fs := .ofFiles files
  writers := fun _ => .idle none
  readers := fun _ => .idle
  stored := []

/-- A thread goes on. -/
def setWriter (s : System m) (thread : UInt64) (fs : FileSystem (List UInt8) UInt8)
    (stored : List (List UInt8)) (w : Writer) : System m where
  fs := fs
  writers := Function.update s.writers thread w
  readers := s.readers
  stored := stored

theorem writers_setWriter {s : System m} {thread : UInt64} {fs : FileSystem (List UInt8) UInt8}
    {stored : List (List UInt8)} {w : Writer} :
  (s.setWriter thread fs stored w).writers thread = w
  := Function.update_self _ _ _

/-- A reader goes on. -/
def setReader (s : System m) (reader : ℕ) (r : Reader m) : System m :=
  { s with readers := Function.update s.readers reader r }

/-- The system after a call. -/
def step (s : System m) : Action m → Option (System m)
  | .openTmp thread buf opened =>
      match s.writers thread with
      | .idle _ =>
          if opened then
            let r := s.fs.create (m.tmp thread)
            some (s.setWriter thread r.1 s.stored (.writing buf r.2 0))
          else some (s.setWriter thread s.fs s.stored (.idle (some (-1))))
      | _ => none
  | .write thread n =>
      match s.writers thread with
      | .writing buf fd pos =>
          let chunk := (buf.drop pos).take n
          some (s.setWriter thread (s.fs.writeAt fd pos chunk) s.stored
            (.writing buf fd (pos + chunk.length)))
      | _ => none
  | .written thread failed =>
      match s.writers thread with
      | .writing buf _ pos =>
          if failed || pos ≠ buf.length then
            some (s.setWriter thread s.fs s.stored (.idle (some (-1))))
          else some (s.setWriter thread s.fs s.stored (.closed buf))
      | _ => none
  | .rename thread renamed =>
      match s.writers thread with
      | .closed buf =>
          if renamed then
            some (s.setWriter thread (s.fs.rename (m.tmp thread) m.path) (s.stored ++ [buf])
              (.idle (some buf.length)))
          else some (s.setWriter thread s.fs s.stored .unlinking)
      | _ => none
  | .unlink thread =>
      match s.writers thread with
      | .unlinking =>
          some (s.setWriter thread (s.fs.unlink (m.tmp thread)) s.stored (.idle (some (-1))))
      | _ => none
  | .openFile reader q allocated opened reason =>
      match s.readers reader with
      | .idle => some (s.setReader reader (.opened s.fs q allocated opened reason))
      | _ => none
  | .read reader delivery reason =>
      ((s.readers reader).afterRead s.fs delivery reason).map (s.setReader reader)
  | .seek reader seeks reason =>
      ((s.readers reader).afterSeek seeks reason).map (s.setReader reader)
  | .close reader => ((s.readers reader).afterClose).map (s.setReader reader)

end System

/-! ### Files that are published -/

/-- The bytes of a whole metatile: those of the file from before, or of a stored buffer. -/
def Complete (m : Metatile) (files : Files) (stored : List (List UInt8)) (c : List UInt8) : Prop :=
  files m.path = some c ∨ c ∈ stored

/-- The file has the bytes of a whole metatile, and none of the temporary names. -/
structure Published (m : Metatile) (files : Files) (stored : List (List UInt8))
    (fs : FileSystem (List UInt8) UInt8) (i : Inode (List UInt8)) (c : List UInt8) : Prop where
  settled : fs.Settled (Set.range m.tmp) i
  contents : fs.contents i = c
  complete : Complete m files stored c

/-- The temporary file of a thread has the bytes that have been written. -/
def WriterInv (m : Metatile) (fs : FileSystem (List UInt8) UInt8) (thread : UInt64) :
    Writer → Prop
  | .writing buf fd pos =>
      fs.names (m.tmp thread) = some fd ∧ fs.file (m.tmp thread) = some (buf.take pos) ∧
        pos ≤ buf.length
  | .closed buf => fs.file (m.tmp thread) = some buf
  | _ => True

/-- What is read of a tile by a call that nothing else disturbs, from a file with some bytes. -/
def readAlone (files : Files) (c : List UInt8) (q : TileCall m) : TileRead :=
  fileTileRead m.tileDir (Function.update files m.path (some c)) m.xmlconfig m.options q.x q.y m.z
    q.sz ⟨true, true, fun _ => some 1, true, []⟩

/-- A reader has read from one file, of which `published` says what it is. -/
def ReaderInv (files : Files) (published : Inode (List UInt8) → List UInt8 → Prop)
    (complete : List UInt8 → Prop) : Reader m → Prop
  | .idle => True
  | .readHeader _ fd data => ∃ c, published fd c ∧ data = c.take data.length ∧
      data.length ≤ MetaTile.headerSize
  | .readData q fd compressed fileOffset tileSize data => ∃ c, published fd c ∧
      StoreFile.Accepted c q.metaOffset q.sz compressed fileOffset tileSize ∧
      data = (c.drop fileOffset.toInt.toNat).take data.length ∧ data.length ≤ toSize tileSize
  | .returned q result => 0 ≤ result.ret → ∃ c, complete c ∧ result = readAlone files c q

/-- What holds in every state. -/
structure Inv (files : Files) (s : System m) : Prop where
  wellFormed : s.fs.WellFormed
  writers : ∀ thread, WriterInv m s.fs thread (s.writers thread)
  readers : ∀ reader, ReaderInv files (Published m files s.stored s.fs)
    (Complete m files s.stored) (s.readers reader)
  path : ∀ i, s.fs.names m.path = some i → ∃ c, Published m files s.stored s.fs i c
  absent : s.fs.names m.path = none → files m.path = none

variable {files : Files} {stored stored' : List (List UInt8)} {c : List UInt8}
  {fs fs' : FileSystem (List UInt8) UInt8} {i : Inode (List UInt8)} {s s' : System m}
  {thread thread' : UInt64} {w : Writer} {r r' : Reader m} {q : TileCall m}

theorem tmp_ne_path :
  m.tmp thread ≠ m.path
  := tmpPath_ne _ _

theorem path_notMem_tmp :
  m.path ∉ Set.range m.tmp
  := by
  rintro ⟨thread, hthread⟩
  apply tmp_ne_path hthread

theorem tmp_ne_tmp (h : thread' ≠ thread) :
  m.tmp thread' ≠ m.tmp thread
  := by
  intro heq
  apply h (StoreFile.tmpPath_inj heq)

/-- A published file stays so when a thread makes a call on its temporary file. -/
theorem Published.updatedAt (h : Published m files stored fs i c)
    (hupdated : fs.UpdatedAt (m.tmp thread) m.path fs') (hstored : stored ⊆ stored') :
  Published m files stored' fs' i c
  := by
  obtain ⟨hsettled, hcontents⟩ := h.settled.updatedAt hupdated ⟨thread, rfl⟩ path_notMem_tmp
  constructor
  case settled => apply hsettled
  case contents => rw [hcontents, h.contents]
  case complete => apply h.complete.imp_right (fun hc => hstored hc)

/-- The invariant of a reader depends on the files only by way of what is published. -/
theorem ReaderInv.mono {published published' : Inode (List UInt8) → List UInt8 → Prop}
    {complete complete' : List UInt8 → Prop} (h : ReaderInv files published complete r)
    (hpublished : ∀ i c, published i c → published' i c)
    (hcomplete : ∀ c, complete c → complete' c) :
  ReaderInv files published' complete' r
  := by
  cases r with
  | idle => trivial
  | readHeader q fd data =>
      obtain ⟨c, hc, hdata⟩ := h
      exact ⟨c, hpublished fd c hc, hdata⟩
  | readData q fd compressed fileOffset tileSize data =>
      obtain ⟨c, hc, hdata⟩ := h
      exact ⟨c, hpublished fd c hc, hdata⟩
  | returned q result =>
      intro hret
      obtain ⟨c, hc, hresult⟩ := h hret
      exact ⟨c, hcomplete c hc, hresult⟩

/-- Another thread keeps its temporary file. -/
theorem WriterInv.updatedAt (h : WriterInv m fs thread' w) (hfs : fs.WellFormed)
    (hupdated : fs.UpdatedAt (m.tmp thread) m.path fs') (hne : thread' ≠ thread) :
  WriterInv m fs' thread' w
  := by
  have hfile := hupdated.file_other hfs (tmp_ne_tmp hne) tmp_ne_path
  have hnames := hupdated.names_other _ (tmp_ne_tmp hne) tmp_ne_path
  cases w with
  | idle last => trivial
  | writing buf fd pos =>
      rw [WriterInv, hnames, hfile]
      apply h
  | closed buf =>
      rw [WriterInv, hfile]
      apply h
  | unlinking => trivial

/-- A thread makes a call on its temporary file. -/
theorem Inv.setWriter (h : Inv files s) (hupdated : s.fs.UpdatedAt (m.tmp thread) m.path fs')
    (hw : WriterInv m fs' thread w) (hstored : s.stored ⊆ stored')
    (hpath : ∀ i, fs'.names m.path = some i → ∃ c, Published m files stored' fs' i c)
    (habsent : fs'.names m.path = none → files m.path = none) :
  Inv files (s.setWriter thread fs' stored' w)
  := by
  constructor
  case wellFormed => apply hupdated.wellFormed
  case writers =>
    intro thread'
    rw [System.setWriter]
    dsimp only
    rcases eq_or_ne thread' thread with rfl | hne
    · rw [Function.update_self]
      apply hw
    · rw [Function.update_of_ne hne]
      apply (h.writers thread').updatedAt h.wellFormed hupdated hne
  case readers =>
    intro reader
    apply (h.readers reader).mono
    · exact fun i c hc => hc.updatedAt hupdated hstored
    · exact fun c hc => hc.imp_right (fun hc => hstored hc)
  case path => apply hpath
  case absent => apply habsent

/-- A thread makes a call that leaves the name of the metatile alone. -/
theorem Inv.setWriter_of_path (h : Inv files s)
    (hupdated : ∀ target, s.fs.UpdatedAt (m.tmp thread) target fs')
    (hw : WriterInv m fs' thread w) :
  Inv files (s.setWriter thread fs' s.stored w)
  := by
  have hpath : fs'.names m.path = s.fs.names m.path :=
    (hupdated (m.tmp thread)).names_other m.path tmp_ne_path.symm tmp_ne_path.symm
  apply h.setWriter (hupdated m.path) hw (List.Subset.refl _)
  · intro i hi
    rw [hpath] at hi
    obtain ⟨c, hc⟩ := h.path i hi
    exact ⟨c, hc.updatedAt (hupdated m.path) (List.Subset.refl _)⟩
  · intro hnone
    rw [hpath] at hnone
    apply h.absent hnone

/-- A reader goes on. -/
theorem Inv.setReader (h : Inv files s) {reader : ℕ}
    (hr : ReaderInv files (Published m files s.stored s.fs) (Complete m files s.stored) r) :
  Inv files (s.setReader reader r)
  := by
  constructor
  case wellFormed => apply h.wellFormed
  case writers => apply h.writers
  case readers =>
    intro reader'
    rw [System.setReader]
    dsimp only
    rcases eq_or_ne reader' reader with rfl | hne
    · rw [Function.update_self]
      apply hr
    · rw [Function.update_of_ne hne]
      apply h.readers reader'
  case path => apply h.path
  case absent => apply h.absent

/-! ### The threads -/

theorem inv_openTmp (h : Inv files s) {buf : List UInt8} {opened : Bool}
    (hstep : s.step (.openTmp thread buf opened) = some s') :
  Inv files s'
  := by
  rw [System.step] at hstep
  split at hstep
  · split_ifs at hstep
    · obtain rfl := Option.some.inj hstep
      apply h.setWriter_of_path (fun _ => FileSystem.updatedAt_create h.wellFormed)
      obtain ⟨hnames, hcontents⟩ := FileSystem.create_spec (f := s.fs) (p := m.tmp thread)
      refine ⟨hnames, ?_, Nat.zero_le _⟩
      rw [FileSystem.file_of_names hnames, hcontents, List.take_zero]
    · obtain rfl := Option.some.inj hstep
      apply h.setWriter_of_path (fun _ => FileSystem.updatedAt_refl h.wellFormed)
      trivial
  · contradiction

theorem inv_write (h : Inv files s) {n : ℕ} (hstep : s.step (.write thread n) = some s') :
  Inv files s'
  := by
  rw [System.step] at hstep
  split at hstep
  · rename_i buf fd pos hw
    obtain rfl := Option.some.inj hstep
    have hwriter := h.writers thread
    rw [hw] at hwriter
    obtain ⟨hnames, hfile, hpos⟩ := hwriter
    apply h.setWriter_of_path (fun _ => FileSystem.updatedAt_writeAt h.wellFormed hnames)
    refine ⟨hnames, ?_, ?_⟩
    · rw [FileSystem.file_of_names hnames] at hfile
      rw [FileSystem.file_writeAt hnames, Option.some.inj hfile, Bytes.copyTo_end]
      · rw [List.take_add, ← List.prefix_iff_eq_take.mp (List.take_prefix n (buf.drop pos))]
      · rw [List.length_take, Nat.min_eq_left hpos]
    · rw [List.length_take, List.length_drop]
      omega
  · contradiction

theorem inv_written (h : Inv files s) {failed : Bool}
    (hstep : s.step (.written thread failed) = some s') :
  Inv files s'
  := by
  have hupdated : ∀ target, s.fs.UpdatedAt (m.tmp thread) target s.fs :=
    fun _ => FileSystem.updatedAt_refl h.wellFormed
  rw [System.step] at hstep
  split at hstep
  · rename_i buf fd pos hw
    split_ifs at hstep with hfailed
    · obtain rfl := Option.some.inj hstep
      apply h.setWriter_of_path hupdated
      trivial
    · obtain rfl := Option.some.inj hstep
      have hwriter := h.writers thread
      rw [hw] at hwriter
      obtain ⟨-, hfile, -⟩ := hwriter
      obtain ⟨-, hpos⟩ : failed = false ∧ pos = buf.length := by simpa using hfailed
      apply h.setWriter_of_path hupdated
      rw [hpos, List.take_length] at hfile
      apply hfile
  · contradiction

/-- The file that a thread has written is published. -/
theorem published_rename (h : Inv files s) {buf : List UInt8}
    (hi : s.fs.names (m.tmp thread) = some i) (hcontents : s.fs.contents i = buf) :
  Published m files (s.stored ++ [buf]) (s.fs.rename (m.tmp thread) m.path) i buf
  := by
  obtain ⟨hself, -, hother⟩ := FileSystem.names_rename (f := s.fs) (p := m.tmp thread)
    (t := m.path) tmp_ne_path.symm
  constructor
  case settled =>
    constructor
    case allocated => apply h.wellFormed.allocated _ i hi
    case names =>
      rintro _ ⟨thread', rfl⟩ hi'
      rcases eq_or_ne thread' thread with rfl | hne
      · rw [hself] at hi'
        contradiction
      · rw [hother _ (tmp_ne_tmp hne) tmp_ne_path] at hi'
        apply tmp_ne_tmp hne (h.wellFormed.unique _ _ i hi' hi)
  case contents => apply hcontents
  case complete =>
    right
    apply List.mem_append_right _ (List.mem_singleton_self buf)

theorem inv_rename (h : Inv files s) {renamed : Bool}
    (hstep : s.step (.rename thread renamed) = some s') :
  Inv files s'
  := by
  rw [System.step] at hstep
  split at hstep
  · rename_i buf hw
    split_ifs at hstep
    · obtain rfl := Option.some.inj hstep
      have hfile := h.writers thread
      rw [hw] at hfile
      obtain ⟨i, hi, hcontents⟩ := Option.map_eq_some_iff.mp hfile
      obtain ⟨-, htarget, -⟩ := FileSystem.names_rename (f := s.fs) (p := m.tmp thread)
        (t := m.path) tmp_ne_path.symm
      rw [hi] at htarget
      apply h.setWriter (FileSystem.updatedAt_rename h.wellFormed tmp_ne_path.symm)
      · trivial
      · apply List.subset_append_left
      · intro j hj
        rw [htarget] at hj
        obtain rfl := Option.some.inj hj
        exact ⟨buf, published_rename h hi hcontents⟩
      · intro hnone
        rw [htarget] at hnone
        contradiction
    · obtain rfl := Option.some.inj hstep
      apply h.setWriter_of_path (fun _ => FileSystem.updatedAt_refl h.wellFormed)
      trivial
  · contradiction

theorem inv_unlink (h : Inv files s) (hstep : s.step (.unlink thread) = some s') :
  Inv files s'
  := by
  rw [System.step] at hstep
  split at hstep
  · obtain rfl := Option.some.inj hstep
    apply h.setWriter_of_path (fun _ => FileSystem.updatedAt_unlink h.wellFormed)
    trivial
  · contradiction

/-! ### The readers -/

section Readers

variable {published : Inode (List UInt8) → List UInt8 → Prop} {complete : List UInt8 → Prop}
  {compressed : ℤ} {fileOffset tileSize : Int32} {data reason : List UInt8}

/-- A call that fails does not return success. -/
theorem readerInv_failed {e : StoreFile.ReadError} {buf : List UInt8} {compressed : Option ℤ} :
  ReaderInv files published complete (Reader.failed q e buf compressed)
  := by
  intro hret
  have hneg : e.ret < 0 := by
    cases e
    all_goals
      rw [StoreFile.ReadError.ret]
      decide
  exact absurd hret (Int.not_le.mpr hneg)

/-- The tile is read from a file whose header is accepted. -/
theorem readAlone_accepted
    (h : StoreFile.Accepted c q.metaOffset q.sz compressed fileOffset tileSize) :
  readAlone files c q =
    ⟨(tileBytes c fileOffset tileSize).length, tileBytes c fileOffset tileSize, some compressed,
      none⟩
  := by
  apply StoreFile.fileTileRead_accepted
  · exact ⟨rfl, rfl, by simp, rfl⟩
  · rw [q.path_eq, Function.update_self]
  · apply h

/-- A call that has read the tile of a file returns it. -/
theorem readerInv_finished (hc : complete c)
    (h : StoreFile.Accepted c q.metaOffset q.sz compressed fileOffset tileSize)
    (hdata : data = tileBytes c fileOffset tileSize) :
  ReaderInv files published complete (Reader.finished q compressed data)
  := by
  intro _
  use c, hc
  rw [readAlone_accepted h, hdata]

/-- A reader opens the file with the name of the metatile. -/
theorem readerInv_opened {allocated opened : Bool}
    (hpath : ∀ i, fs.names m.path = some i → ∃ c, published i c) :
  ReaderInv files published complete (Reader.opened fs q allocated opened reason)
  := by
  cases allocated with
  | false => apply readerInv_failed
  | true =>
      cases opened with
      | false => apply readerInv_failed
      | true =>
          rw [Reader.opened, if_neg (by decide), if_pos rfl]
          cases hfd : fs.names m.path with
          | none => apply readerInv_failed
          | some fd =>
              obtain ⟨c, hc⟩ := hpath fd hfd
              exact ⟨c, hc, rfl, Nat.zero_le _⟩

/-- A reader goes on to read. -/
theorem readerInv_afterRead {delivery : Option ℕ} (h : ReaderInv files published complete r)
    (hpublished : ∀ i c, published i c → fs.contents i = c ∧ complete c)
    (hafter : r.afterRead fs delivery reason = some r') :
  ReaderInv files published complete r'
  := by
  cases r with
  | idle => contradiction
  | readHeader q fd data =>
      obtain ⟨c, hc, hdata, hle⟩ := h
      cases delivery with
      | none =>
          rw [Reader.afterRead] at hafter
          split_ifs at hafter
          obtain rfl := Option.some.inj hafter
          apply readerInv_failed
      | some quota =>
          rw [Reader.afterRead, (hpublished fd c hc).1] at hafter
          dsimp only at hafter
          split_ifs at hafter
          · obtain rfl := Option.some.inj hafter
            apply readerInv_failed
          · obtain rfl := Option.some.inj hafter
            obtain ⟨n, hn, hfile, htake⟩ := Bytes.append_readCount quota hdata hle
            rw [htake]
            refine ⟨c, hc, ?_, ?_⟩
            · rw [List.length_take, Nat.min_eq_left hfile]
            · rw [List.length_take, Nat.min_eq_left hfile]
              apply hn
  | readData q fd compressed fileOffset tileSize data =>
      obtain ⟨c, hc, haccepted, hdata, hle⟩ := h
      obtain ⟨hcontents, hcomplete⟩ := hpublished fd c hc
      cases delivery with
      | none =>
          rw [Reader.afterRead] at hafter
          split_ifs at hafter
          obtain rfl := Option.some.inj hafter
          apply readerInv_failed
      | some quota =>
          rw [Reader.afterRead, hcontents, ← List.drop_drop] at hafter
          dsimp only at hafter
          split_ifs at hafter with hlt hgot
          · obtain rfl := Option.some.inj hafter
            have hend := Bytes.length_le_of_readCount (Nat.lt_of_not_le hlt) hgot
            apply readerInv_finished hcomplete haccepted
            rw [hdata, tileBytes, List.take_of_length_le hend, List.take_of_length_le]
            omega
          · obtain rfl := Option.some.inj hafter
            obtain ⟨n, hn, hfile, htake⟩ := Bytes.append_readCount quota hdata hle
            rw [htake]
            refine ⟨c, hc, haccepted, ?_, ?_⟩
            · rw [List.length_take, Nat.min_eq_left hfile]
            · rw [List.length_take, Nat.min_eq_left hfile]
              apply hn
  | returned q result => contradiction

/-- A reader checks the header, and goes to the data. -/
theorem readerInv_afterSeek {seeks : Bool} (h : ReaderInv files published complete r)
    (hafter : r.afterSeek seeks reason = some r') :
  ReaderInv files published complete r'
  := by
  cases r with
  | idle => contradiction
  | readHeader q fd data =>
      obtain ⟨c, hc, hdata, hle⟩ := h
      rw [Reader.afterSeek] at hafter
      split_ifs at hafter with hlt
      have hlength : data.length = MetaTile.headerSize := by omega
      rw [hlength] at hdata
      split at hafter
      · obtain rfl := Option.some.inj hafter
        apply readerInv_failed
      · rename_i compressed hmagic
        dsimp only at hafter
        split_ifs at hafter with hcount hfits hseeks
        · obtain rfl := Option.some.inj hafter
          apply readerInv_failed
        · obtain rfl := Option.some.inj hafter
          apply readerInv_failed
        · obtain rfl := Option.some.inj hafter
          apply readerInv_failed
        · obtain rfl := Option.some.inj hafter
          refine ⟨c, hc, ?_, rfl, Nat.zero_le _⟩
          rw [not_not] at hcount
          rw [Bool.or_eq_true, not_or, decide_eq_true_eq] at hseeks
          constructor
          case long =>
            rw [hdata, List.length_take] at hlength
            omega
          case magic => rw [← hdata, hmagic]
          case count => rw [← hdata, hcount]
          case offset => rw [← hdata]
          case size => rw [← hdata]
          case fits => omega
          case nonneg => omega
  | readData q fd compressed fileOffset tileSize data => contradiction
  | returned q result => contradiction

/-- A reader closes the file. -/
theorem readerInv_afterClose (h : ReaderInv files published complete r)
    (hpublished : ∀ i c, published i c → complete c) (hafter : r.afterClose = some r') :
  ReaderInv files published complete r'
  := by
  cases r with
  | idle => contradiction
  | readHeader q fd data => contradiction
  | readData q fd compressed fileOffset tileSize data =>
      obtain ⟨c, hc, haccepted, hdata, hle⟩ := h
      rw [Reader.afterClose] at hafter
      split_ifs at hafter with hlt
      obtain rfl := Option.some.inj hafter
      apply readerInv_finished (hpublished fd c hc) haccepted
      have hlength : data.length = toSize tileSize := by omega
      rw [hdata, hlength, tileBytes]
  | returned q result => contradiction

end Readers

/-! ### Runs -/

theorem inv_init :
  Inv files (System.init m files)
  := by
  constructor
  case wellFormed => apply FileSystem.wellFormed_ofFiles
  case writers => exact fun _ => trivial
  case readers => exact fun _ => trivial
  case path =>
    intro i hi
    obtain ⟨c, hc, rfl⟩ := Option.map_eq_some_iff.mp hi
    use c
    constructor
    case settled =>
      constructor
      case allocated => trivial
      case names =>
        rintro _ ⟨thread, rfl⟩ hthread
        obtain ⟨_, -, heq⟩ := Option.map_eq_some_iff.mp hthread
        apply tmp_ne_path (Inode.initial.inj heq)
    case contents =>
      rw [System.init, FileSystem.ofFiles]
      dsimp only
      rw [hc, Option.getD_some]
    case complete =>
      left
      apply hc
  case absent =>
    intro hnone
    apply Option.map_eq_none_iff.mp hnone

/-- Every call keeps the invariant. -/
theorem step_inv {a : Action m} (h : Inv files s) (hstep : s.step a = some s') :
  Inv files s'
  := by
  cases a with
  | openTmp thread buf opened => apply inv_openTmp h hstep
  | write thread n => apply inv_write h hstep
  | written thread failed => apply inv_written h hstep
  | rename thread renamed => apply inv_rename h hstep
  | unlink thread => apply inv_unlink h hstep
  | openFile reader q allocated opened reason =>
      rw [System.step] at hstep
      split at hstep
      · obtain rfl := Option.some.inj hstep
        apply h.setReader (readerInv_opened h.path)
      · contradiction
  | read reader delivery reason =>
      obtain ⟨r, hr, rfl⟩ := Option.map_eq_some_iff.mp hstep
      apply h.setReader
      apply readerInv_afterRead (h.readers reader) _ hr
      exact fun i c hc => ⟨hc.contents, hc.complete⟩
  | seek reader seeks reason =>
      obtain ⟨r, hr, rfl⟩ := Option.map_eq_some_iff.mp hstep
      apply h.setReader (readerInv_afterSeek (h.readers reader) hr)
  | close reader =>
      obtain ⟨r, hr, rfl⟩ := Option.map_eq_some_iff.mp hstep
      apply h.setReader
      apply readerInv_afterClose (h.readers reader) _ hr
      exact fun i c hc => hc.complete

theorem reach_inv (h : Reach System.step anyStep (System.init m files) s) :
  Inv files s
  := by
  apply h.invariant inv_init
  intro s a s' hs _ hstep
  apply step_inv hs hstep

theorem step_write {buf : List UInt8} {fd : Inode (List UInt8)} {pos n : ℕ}
    (hw : s.writers thread = .writing buf fd pos) :
  s.step (.write thread n) =
    some (s.setWriter thread (s.fs.writeAt fd pos ((buf.drop pos).take n)) s.stored
      (.writing buf fd (pos + ((buf.drop pos).take n).length)))
  := by
  rw [System.step, hw]

/-- A thread opens its temporary file and writes the first bytes of its buffer. -/
theorem reach_writing (buf : List UInt8) (n : ℕ) {last : Option ℤ} (hfs : s.fs.WellFormed)
    (hidle : s.writers thread = .idle last) :
  ∃ s' fd, Reach System.step anyStep s s' ∧
    s'.fs.file = Function.update s.fs.file (m.tmp thread) (some (buf.take n)) ∧
    s'.writers thread = .writing buf fd (buf.take n).length
  := by
  have hopen : s.step (.openTmp thread buf true) =
      some (s.setWriter thread (s.fs.create (m.tmp thread)).1 s.stored
        (.writing buf (s.fs.create (m.tmp thread)).2 0)) := by
    rw [System.step, hidle]
    rfl
  have hreach : Reach System.step anyStep s _ := (Reach.refl.tail _ trivial hopen).tail _ trivial
    (step_write (n := n) System.writers_setWriter)
  refine ⟨_, (s.fs.create (m.tmp thread)).2, hreach, ?_, ?_⟩
  · apply FileSystem.file_create_writeAt hfs
  · rw [System.writers_setWriter, List.drop_zero, Nat.zero_add]

/-- The calls of a thread, one after the other, do what `file_metatile_write` does. -/
theorem reach_write_alone {buf : List UInt8} {sz : Int32} {o : StoreFile.WriteOutcome}
    {last : Option ℤ} (hfs : s.fs.WellFormed) (hidle : s.writers thread = .idle last)
    (hthread : o.thread = thread.toNat) (hsz : sz.toInt = buf.length) :
  ∃ s', Reach System.step anyStep s s' ∧
    s'.fs.file = (fileMetatileWrite m.tileDir s.fs.file m.xmlconfig m.options m.x m.y m.z buf sz
      o).2 ∧
    s'.writers thread = .idle (some (fileMetatileWrite m.tileDir s.fs.file m.xmlconfig m.options
      m.x m.y m.z buf sz o).1)
  := by
  have htmp : tmpPath m.path o.thread = m.tmp thread := by rw [hthread, Metatile.tmp]
  obtain ⟨t, fd, hreach, hfile, hwriting⟩ := reach_writing buf o.written.toNat hfs hidle
  have hcomplete : ¬ o.written ≠ sz.toInt → ∃ u, Reach System.step anyStep s u ∧
      u.fs.file = Function.update s.fs.file (m.tmp thread) (some (buf.take o.written.toNat)) ∧
      u.writers thread = .closed buf := by
    intro hwritten
    have hlength : (buf.take o.written.toNat).length = buf.length := by
      rw [List.length_take]
      omega
    rw [hlength] at hwriting
    have hstep : t.step (.written thread false) =
        some (t.setWriter thread t.fs t.stored (.closed buf)) := by
      rw [System.step, hwriting]
      dsimp only
      rw [if_neg (by simp)]
    refine ⟨_, hreach.tail _ trivial hstep, hfile, ?_⟩
    rw [System.writers_setWriter]
  rw [fileMetatileWrite]
  dsimp only
  rw [← Metatile.path, htmp]
  split_ifs with hopened hpartial hrenamed
  · have hstep : t.step (.written thread true) =
        some (t.setWriter thread t.fs t.stored (.idle (some (-1)))) := by
      rw [System.step, hwriting]
      rfl
    refine ⟨_, hreach.tail _ trivial hstep, hfile, ?_⟩
    rw [System.writers_setWriter]
  · obtain ⟨u, hreach, hfile, hclosed⟩ := hcomplete hpartial
    have hstep : u.step (.rename thread true) =
        some (u.setWriter thread (u.fs.rename (m.tmp thread) m.path) (u.stored ++ [buf])
          (.idle (some buf.length))) := by
      rw [System.step, hclosed]
      rfl
    refine ⟨_, hreach.tail _ trivial hstep, ?_, ?_⟩
    · rw [← hfile]
      apply FileSystem.file_rename tmp_ne_path.symm
    · rw [System.writers_setWriter, hsz]
  · obtain ⟨u, hreach, hfile, hclosed⟩ := hcomplete hpartial
    have hrename : u.step (.rename thread false) =
        some (u.setWriter thread u.fs u.stored .unlinking) := by
      rw [System.step, hclosed]
      rfl
    have hunlink : (u.setWriter thread u.fs u.stored .unlinking).step (.unlink thread) =
        some ((u.setWriter thread u.fs u.stored .unlinking).setWriter thread
          (u.fs.unlink (m.tmp thread)) u.stored (.idle (some (-1)))) := by
      rw [System.step, System.writers_setWriter]
      rfl
    refine ⟨_, (hreach.tail _ trivial hrename).tail _ trivial hunlink, ?_, ?_⟩
    · rw [← hfile]
      apply FileSystem.file_unlink
    · rw [System.writers_setWriter]
  · have hstep : s.step (.openTmp thread buf false) =
        some (s.setWriter thread s.fs s.stored (.idle (some (-1)))) := by
      rw [System.step, hidle]
      rfl
    refine ⟨_, Reach.refl.tail _ trivial hstep, rfl, ?_⟩
    rw [System.writers_setWriter]

/-- However the calls of the threads and the readers are interleaved, the name of the metatile is
that of the file from before, if any, or of a buffer that was written as a whole, and a reader
that returns success returns what it reads from such a file alone. -/
theorem atomic_replacement (h : Reach System.step anyStep (System.init m files) s) :
  (s.fs.file m.path = files m.path ∨ ∃ c ∈ s.stored, s.fs.file m.path = some c) ∧
  ∀ reader q result, s.readers reader = .returned q result → 0 ≤ result.ret →
    ∃ c, (files m.path = some c ∨ c ∈ s.stored) ∧ result = readAlone files c q
  := by
  have hs := reach_inv h
  constructor
  · cases hpath : s.fs.names m.path with
    | none =>
        left
        rw [FileSystem.file, hpath, hs.absent hpath, Option.map_none]
    | some i =>
        obtain ⟨c, hc⟩ := hs.path i hpath
        rw [FileSystem.file_of_names hpath, hc.contents]
        rcases hc.complete with hold | hstored
        · left
          rw [hold]
        · right
          exact ⟨c, hstored, rfl⟩
  · intro reader q result hreader hret
    have hr := hs.readers reader
    rw [hreader] at hr
    apply hr hret

/-- The first tile of a metatile. -/
def sampleMetatile : Metatile :=
  ⟨Bytes.ofString "/tiles", Bytes.ofString "default", [], 8, 16, 5⟩

def sampleCall : TileCall sampleMetatile := ⟨8, 16, 100, rfl⟩

/-- A buffer whose first tile has three bytes. -/
def sampleBuffer (tile : String) : List UInt8 :=
  Bytes.ofString "META" ++ (Bytes.le32 64 ++ (List.replicate 12 0 ++ (Bytes.le32 532 ++
    (Bytes.le32 3 ++ (List.replicate 504 0 ++ Bytes.ofString tile)))))

/-- Two threads write the metatile.  A reader opens the file of the first thread, and reads the
data after the second one has replaced the file. -/
def sampleActions : List (Action sampleMetatile) :=
  [.openTmp 1 (sampleBuffer "PNG") true, .openTmp 2 (sampleBuffer "GIF") true, .write 1 600,
    .write 2 500, .written 1 false, .rename 1 true, .openFile 0 sampleCall true true [],
    .read 0 (some 600) [], .write 2 600, .written 2 false, .rename 2 true, .seek 0 true [],
    .read 0 (some 2) [], .read 0 (some 2) [], .close 0]

/-- The reader returns the tile of the first thread. -/
theorem atomic_replacement_sample :
  ∃ s : System sampleMetatile,
    Reach System.step anyStep (System.init sampleMetatile fun _ => none) s ∧
    s.readers 0 = .returned sampleCall ⟨3, Bytes.ofString "PNG", some 0, none⟩ ∧
    ∃ c ∈ s.stored, readAlone (fun _ => none) c sampleCall = ⟨3, Bytes.ofString "PNG", some 0, none⟩
  := by
  have hrun : (run System.step (fun _ _ => true) (System.init sampleMetatile fun _ => none)
      sampleActions).map (fun s => s.readers 0) =
        some (.returned sampleCall ⟨3, Bytes.ofString "PNG", some 0, none⟩) := by
    decide +kernel
  obtain ⟨s, hrun, hreader⟩ := Option.map_eq_some_iff.mp hrun
  have hreach : Reach System.step anyStep (System.init sampleMetatile fun _ => none) s :=
    reach_of_run hrun (fun _ _ _ => trivial)
  obtain ⟨c, hc, hresult⟩ := (atomic_replacement hreach).2 0 _ _ hreader (by decide)
  rcases hc with hold | hstored
  · simp at hold
  · exact ⟨s, hreach, hreader, c, hstored, hresult.symm⟩

end StoreFileRuns
