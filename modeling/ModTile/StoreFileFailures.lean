import ModTile.StoreFile

/-!
# Broken files and failed writes

What the file store does with a file that is not that of a metatile, and with a metatile that it
cannot write.  A file with any content is read without leaving the buffer, and every defect has a
value of its own that is returned.  When a metatile cannot be written, its old file stays, but
the temporary file stays as well if it could not be filled.
-/

open StoreFileUtils (xyzoToMeta)

namespace StoreFile

/-! ### Reading any file -/

/-- The memory that begins with the buffer, after a tile has been read. -/
def TileRead.memory (r : TileRead) (memory : List UInt8) : List UInt8 :=
  r.buf ++ memory.drop r.buf.length

/-- The sizes that an object of a C program can have. -/
abbrev ObjectSize : Type := Fin (2 ^ 63)

/-- The offset in the index of a file, for the tile in the place `i`. -/
def indexOffset (file : List UInt8) (i : ℕ) : Int32 :=
  headerInt (file.take MetaTile.headerSize) (MetaTile.layoutSize + 8 * i)

/-- The size in the index of a file, for the tile in the place `i`. -/
def indexSize (file : List UInt8) (i : ℕ) : Int32 :=
  headerInt (file.take MetaTile.headerSize) (MetaTile.layoutSize + 8 * i + 4)

variable {tileDir xmlconfig options file path : List UInt8} {files : Files} {x y z : Int32}
  {sz : ℕ} {o : ReadOutcome} {header : Bytes.ReadRun} {compressed : ℤ}
  {fileOffset tileSize : Int32}

/-- Memory behind the data is not changed. -/
theorem drop_memory {r : TileRead} (h : r.buf.length ≤ sz) (memory : List UInt8) :
  (r.memory memory).drop sz = memory.drop sz
  := by
  rw [TileRead.memory, List.drop_append, List.drop_eq_nil_of_le h, List.nil_append, List.drop_drop]
  congr 1
  omega

/-- A size is refused exactly when it is negative or larger than the buffer. -/
theorem lt_toSize_iff (hsz : sz < 2 ^ 63) :
  sz < toSize tileSize ↔ tileSize.toInt < 0 ∨ sz < tileSize.toInt
  := by
  have hle := tileSize.le_toInt
  have hlt := tileSize.toInt_lt
  rw [toSize]
  omega

/-- The number of bytes of a tile that are in the file. -/
theorem length_tileBytes (file : List UInt8) (hsize : 0 ≤ tileSize.toInt)
    (hoffset : 0 ≤ fileOffset.toInt) :
  ((tileBytes file fileOffset tileSize).length : ℤ) =
    min tileSize.toInt (max 0 (file.length - fileOffset.toInt))
  := by
  obtain ⟨n, hn⟩ := Int.eq_ofNat_of_zero_le hsize
  rw [tileBytes, List.length_take, List.length_drop, toSize_of_nonneg hn]
  omega

/-- What is returned for the entry of a tile, and the bytes that are read. -/
theorem readData_spec (ho : o.Undisturbed) (hsz : sz < 2 ^ 63) :
  let r := readData file path header compressed fileOffset tileSize sz o
  r.buf.length ≤ sz ∧
    (r.ret =
      if tileSize.toInt < 0 ∨ sz < tileSize.toInt then -6
      else if fileOffset.toInt < 0 then -7
      else min tileSize.toInt (max 0 (file.length - fileOffset.toInt))) ∧
    r.buf = if 0 ≤ r.ret then (file.drop fileOffset.toInt.toNat).take r.ret.toNat else []
  := by
  obtain ⟨hdata, hfailed⟩ := Bytes.readLoop_spec ho.delivery header.next
    (file.drop fileOffset.toInt.toNat) (toSize tileSize)
  simp only [readData, ho.seeks, hfailed, hdata, gt_iff_lt, lt_toSize_iff hsz, Bool.not_true,
    Bool.or_false, decide_eq_true_eq, Bool.false_eq_true, if_false]
  by_cases hsize : tileSize.toInt < 0 ∨ sz < tileSize.toInt
  · simp only [if_pos hsize]
    exact ⟨Nat.zero_le _, rfl, rfl⟩
  by_cases hoffset : fileOffset.toInt < 0
  · simp only [if_neg hsize, if_pos hoffset]
    exact ⟨Nat.zero_le _, rfl, rfl⟩
  simp only [if_neg hsize, if_neg hoffset]
  rw [not_or, not_lt, not_lt] at hsize
  have hlength := length_tileBytes file hsize.1 (not_lt.mp hoffset)
  refine ⟨?_, hlength, ?_⟩
  · apply Int.ofNat_le.mp
    apply le_trans _ hsize.2
    apply hlength.le.trans (min_le_left _ _)
  · rw [if_pos (Int.natCast_nonneg _), Int.toNat_natCast, List.length_take, List.take_eq_take_min]

/-- Reading a tile from a file with any content. -/
theorem fileTileRead_eq (sz : ℕ) (ho : o.Undisturbed)
    (hfile : files (xyzoToMeta pathMax tileDir xmlconfig options x y z).1 = some file) :
  fileTileRead tileDir files xmlconfig options x y z sz o =
    let path := (xyzoToMeta pathMax tileDir xmlconfig options x y z).1
    let header := file.take MetaTile.headerSize
    if file.length < MetaTile.headerSize then .failure (.tooSmall path) [] none
    else
      match magicCompressed header with
      | none => .failure (.magicMismatch path) [] none
      | some compressed =>
          if headerInt header 4 ≠ Int32.ofNat (metatile * metatile) then
            .failure (.badCount path (headerInt header 4)) [] (some compressed)
          else
            let i := (xyzoToMeta pathMax tileDir xmlconfig options x y z).2.toNat
            readData file path (Bytes.readLoop o.delivery 0 file MetaTile.headerSize) compressed
              (indexOffset file i) (indexSize file i) sz o
  := by
  obtain ⟨hdata, hfailed⟩ := Bytes.readLoop_spec ho.delivery 0 file MetaTile.headerSize
  have hlong : (file.take MetaTile.headerSize).length < MetaTile.headerSize ↔
      file.length < MetaTile.headerSize := by
    rw [List.length_take]
    omega
  rw [fileTileRead, hfile, ho.allocated, ho.opened]
  simp only [Bool.not_true, Bool.false_eq_true, if_false, if_true, hfailed, hdata, hlong]
  rfl

/-- For every file, buffer and way in which `read` delivers the data, a tile is read into the
buffer only, and the result says which defect the file has, or how many bytes of the tile are in
the file. -/
theorem fileTileRead_total (ho : o.Undisturbed)
    (hfile : files (xyzoToMeta pathMax tileDir xmlconfig options x y z).1 = some file)
    (sz : ObjectSize) :
  let r := fileTileRead tileDir files xmlconfig options x y z sz o
  let i := (xyzoToMeta pathMax tileDir xmlconfig options x y z).2.toNat
  (∀ memory, (r.memory memory).drop sz = memory.drop sz) ∧
    (r.ret =
      if file.length < MetaTile.headerSize then -3
      else if magicCompressed (file.take MetaTile.headerSize) = none then -4
      else if headerInt (file.take MetaTile.headerSize) 4 ≠ Int32.ofNat (metatile * metatile) then
        -5
      else if (indexSize file i).toInt < 0 ∨ sz < (indexSize file i).toInt then -6
      else if (indexOffset file i).toInt < 0 then -7
      else min (indexSize file i).toInt (max 0 (file.length - (indexOffset file i).toInt))) ∧
    r.buf = if 0 ≤ r.ret then (file.drop (indexOffset file i).toInt.toNat).take r.ret.toNat else []
  := by
  intro r i
  have hr := fileTileRead_eq sz.val ho hfile
  change r = _ at hr
  dsimp only at hr
  by_cases hlong : file.length < MetaTile.headerSize
  · rw [if_pos hlong] at hr ⊢
    rw [hr]
    exact ⟨drop_memory (Nat.zero_le _), rfl, rfl⟩
  rw [if_neg hlong] at hr ⊢
  cases hmagic : magicCompressed (file.take MetaTile.headerSize) with
  | none =>
      rw [hmagic] at hr
      rw [if_pos rfl, hr]
      exact ⟨drop_memory (Nat.zero_le _), rfl, rfl⟩
  | some compressed =>
      rw [hmagic] at hr
      dsimp only at hr
      rw [if_neg (Option.some_ne_none _)]
      by_cases hcount : headerInt (file.take MetaTile.headerSize) 4 ≠
          Int32.ofNat (metatile * metatile)
      · rw [if_pos hcount] at hr ⊢
        rw [hr]
        exact ⟨drop_memory (Nat.zero_le _), rfl, rfl⟩
      rw [if_neg hcount] at hr ⊢
      rw [hr]
      obtain ⟨hlength, hret, hbuf⟩ := readData_spec ho sz.isLt
      exact ⟨drop_memory hlength, hret, hbuf⟩

/-- A file whose index has tiles of ten bytes behind the header, and three bytes there. -/
def truncatedFile : List UInt8 :=
  Bytes.ofString "META" ++ Bytes.le32 64 ++ List.replicate 12 0 ++
    Bytes.blocks (fun _ => Bytes.le32 532 ++ Bytes.le32 10) 64 ++ [1, 2, 3]

/-- Every file is this one. -/
def sampleFiles : Files := fun _ => some truncatedFile

/-- The calls deliver one byte each. -/
def byteByByte : ReadOutcome := ⟨true, true, fun _ => some 1, true, []⟩

/-- The bytes that are there are read. -/
theorem fileTileRead_total_truncated :
  (fileTileRead [] sampleFiles [] [] 0 0 0 100 byteByByte).ret = 3
  := by
  have ho : byteByByte.Undisturbed := ⟨rfl, rfl, by simp [byteByByte], rfl⟩
  have hfile : sampleFiles (xyzoToMeta pathMax [] [] [] 0 0 0).1 = some truncatedFile := rfl
  obtain ⟨-, hret, -⟩ := fileTileRead_total ho hfile 100
  apply hret.trans
  decide +kernel

/-! ### Failed writes -/

/-- The temporary file is opened. -/
def WriteOutcome.opens (w : WriteOutcome) : Bool :=
  w.allocated && w.mkdirp && w.opened

/-- One of the calls fails, or `write` does not write all the bytes. -/
def WriteOutcome.Fails (w : WriteOutcome) (sz : Int32) : Prop :=
  w.opens = false ∨ (w.written < 0 ∨ w.written ≠ sz.toInt) ∨ w.renamed = false

variable {buf : List UInt8} {size : Int32} {w : WriteOutcome}

/-- The file is opened, but not all the bytes are written: the temporary file remains. -/
theorem fileMetatileWrite_of_written_ne (hopens : w.opens = true)
    (hwritten : w.written ≠ size.toInt) :
  fileMetatileWrite tileDir files xmlconfig options x y z buf size w =
    (-1, Function.update files
      (tmpPath (xyzoToMeta pathMax tileDir xmlconfig options x y z).1 w.thread)
      (some (buf.take w.written.toNat)))
  := by
  rw [WriteOutcome.opens] at hopens
  simp only [fileMetatileWrite, hopens, if_true, if_pos hwritten]

/-- The file is written, but cannot be renamed: the temporary file is removed. -/
theorem fileMetatileWrite_of_not_renamed (hopens : w.opens = true)
    (hwritten : w.written = size.toInt) (hrenamed : w.renamed = false) :
  fileMetatileWrite tileDir files xmlconfig options x y z buf size w =
    (-1, Function.update files
      (tmpPath (xyzoToMeta pathMax tileDir xmlconfig options x y z).1 w.thread) none)
  := by
  rw [WriteOutcome.opens] at hopens
  simp only [fileMetatileWrite, hopens, if_true, hwritten, ne_eq, not_true, if_false, hrenamed,
    Bool.false_eq_true, Function.update_idem]

/-- When a metatile cannot be written, -1 is returned, and no file but the temporary one is
changed.  The temporary file does not remain exactly when all the bytes could be written, or it
was not opened. -/
theorem fileMetatileWrite_fails (tileDir : List UInt8) (files : Files)
    (xmlconfig options : List UInt8) (x y z : Int32) (buf : List UInt8) (hsize : 0 ≤ size.toInt)
    (h : w.Fails size) :
  let metaPath := (xyzoToMeta pathMax tileDir xmlconfig options x y z).1
  let result := fileMetatileWrite tileDir files xmlconfig options x y z buf size w
  result.1 = -1 ∧ result.2 metaPath = files metaPath ∧
    (∀ path, path ≠ tmpPath metaPath w.thread → result.2 path = files path) ∧
    (w.opens = false → result.2 = files) ∧
    ((w.opens = true → result.2 (tmpPath metaPath w.thread) = none) ↔
      (w.opens = true → w.written = size.toInt))
  := by
  intro metaPath
  have hne := tmpPath_ne metaPath w.thread
  cases hopens : w.opens with
  | false =>
      have hresult : fileMetatileWrite tileDir files xmlconfig options x y z buf size w =
          (-1, files) := by
        rw [WriteOutcome.opens] at hopens
        simp only [fileMetatileWrite, hopens, Bool.false_eq_true, if_false]
      rw [hresult]
      simp
  | true =>
      obtain ⟨left, hresult, hleft⟩ : ∃ left : Option (List UInt8),
          fileMetatileWrite tileDir files xmlconfig options x y z buf size w =
            (-1, Function.update files (tmpPath metaPath w.thread) left) ∧
          (left = none ↔ w.written = size.toInt) := by
        by_cases hwritten : w.written = size.toInt
        · have hrenamed : w.renamed = false := by
            rcases h with h | (h | h) | h
            · rw [hopens] at h
              contradiction
            · omega
            · contradiction
            · apply h
          use none, fileMetatileWrite_of_not_renamed hopens hwritten hrenamed
          simp [hwritten]
        · exact ⟨_, fileMetatileWrite_of_written_ne hopens hwritten, by simp [hwritten]⟩
      rw [hresult]
      dsimp only
      refine ⟨rfl, Function.update_of_ne hne.symm _ _, ?_, by simp, ?_⟩
      · intro path hpath
        apply Function.update_of_ne hpath
      · rw [Function.update_self, hleft]

/-- The file system is full after one byte, or the file cannot be renamed. -/
def sampleFailure (written : ℤ) : WriteOutcome := ⟨true, 1, true, true, written, false⟩

/-- A file that cannot be renamed does not remain. -/
theorem fileMetatileWrite_fails_renamed :
  (fileMetatileWrite [] (fun _ => none) [] [] 0 0 0 [7, 8] 2 (sampleFailure 2)).2
    (tmpPath (xyzoToMeta pathMax [] [] [] 0 0 0).1 1) = none
  := by
  have hfails : (sampleFailure 2).Fails 2 := Or.inr (Or.inr rfl)
  have hsize : 0 ≤ (2 : Int32).toInt := by decide
  obtain ⟨-, -, -, -, htmp⟩ := fileMetatileWrite_fails [] (fun _ => none) [] [] 0 0 0 [7, 8] hsize
    hfails
  apply htmp.mpr _ rfl
  intro _
  rfl

/-- After a short write the temporary file remains, with the bytes that have been written. -/
theorem fileMetatileWrite_short :
  (sampleFailure 1).Fails 2 ∧
    (fileMetatileWrite [] (fun _ => none) [] [] 0 0 0 [7, 8] 2 (sampleFailure 1)).1 = -1 ∧
    (fileMetatileWrite [] (fun _ => none) [] [] 0 0 0 [7, 8] 2 (sampleFailure 1)).2
      (tmpPath (xyzoToMeta pathMax [] [] [] 0 0 0).1 1) = some [7]
  := by
  have hwritten : (sampleFailure 1).written ≠ (2 : Int32).toInt := by decide
  refine ⟨Or.inr (Or.inl (Or.inr hwritten)), ?_, ?_⟩
  · rw [fileMetatileWrite_of_written_ne rfl hwritten]
  · rw [fileMetatileWrite_of_written_ne rfl hwritten]
    simp [sampleFailure]

end StoreFile
