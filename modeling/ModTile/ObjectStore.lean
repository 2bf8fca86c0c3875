import ModTile.StoreFile

/-!
# Metatiles in object stores

What the stores for memcached and for rados have in common.  A metatile is stored under a key
that is made of the name of the map, the coordinates and the options, and its value is a
`struct stat_info` followed by the metatile.  A tile is found by way of the index of the
metatile.
-/

open StoreFile (TileRead magicCompressed headerInt toSize)

namespace ObjectStore

/-! ### Keys -/

/-- The text of a key, with the numbers in the order in which they are printed. -/
def keyText (xmlconfig options : List UInt8) (a b c : ℤ) : List UInt8 :=
  xmlconfig ++ (47 :: Bytes.signed a ++ (47 :: Bytes.signed b ++ (47 :: Bytes.signed c ++
    ((if options = [] then [] else 46 :: options) ++ Bytes.ofString ".meta"))))

/-- A coordinate of the metatile of a tile. -/
def origin (x : Int32) : Int32 := x &&& ~~~7

/-- The key that is printed into a buffer. -/
def storageKey (xmlconfig options : List UInt8) (a b c : ℤ) : List UInt8 :=
  (keyText xmlconfig options a b c).take (pathMax - 2)

/-- The text of a key fits into the buffer. -/
def KeyFits (xmlconfig options : List UInt8) (a b c : ℤ) : Prop :=
  (keyText xmlconfig options a b c).length ≤ pathMax - 2

instance (xmlconfig options : List UInt8) (a b c : ℤ) :
    Decidable (KeyFits xmlconfig options a b c) :=
  inferInstanceAs (Decidable (_ ≤ _))

variable {xmlconfig xmlconfig' options options' : List UInt8} {a b c a' b' c' : ℤ}

theorem storageKey_of_fits (h : KeyFits xmlconfig options a b c) :
  storageKey xmlconfig options a b c = keyText xmlconfig options a b c
  := List.take_of_length_le h

theorem notMem_slash_signed :
  47 ∉ Bytes.signed c
  := Bytes.notMem_signed (by decide) (by decide)

/-- The part of a key behind the last slash has no slash. -/
theorem notMem_slash_suffix (h : 47 ∉ options) :
  47 ∉ Bytes.signed c ++ ((if options = [] then [] else 46 :: options) ++ Bytes.ofString ".meta")
  := by
  have hmeta : (47 : UInt8) ∉ Bytes.ofString ".meta" := by decide
  simp only [List.mem_append, not_or]
  refine ⟨notMem_slash_signed, ?_, hmeta⟩
  split_ifs
  · simp
  · simpa using h

/-- Keys with options that have no slash differ in the name, the numbers, or the options. -/
theorem keyText_inj (hoptions : 47 ∉ options) (hoptions' : 47 ∉ options')
    (h : keyText xmlconfig options a b c = keyText xmlconfig' options' a' b' c') :
  xmlconfig = xmlconfig' ∧ a = a' ∧ b = b' ∧
    Bytes.signed c ++ (if options = [] then [] else 46 :: options) =
      Bytes.signed c' ++ (if options' = [] then [] else 46 :: options')
  := by
  have hassoc : ∀ (l : List UInt8) (a b c : ℤ) (s : List UInt8),
      l ++ (47 :: Bytes.signed a ++ (47 :: Bytes.signed b ++ (47 :: Bytes.signed c ++ s))) =
        (((l ++ 47 :: Bytes.signed a) ++ 47 :: Bytes.signed b) ++ 47 :: (Bytes.signed c ++ s)) := by
    intro l a b c s
    simp
  rw [keyText, keyText, hassoc, hassoc] at h
  obtain ⟨h, hc⟩ := Bytes.append_separator_inj (notMem_slash_suffix hoptions)
    (notMem_slash_suffix hoptions') h
  obtain ⟨h, hb⟩ := Bytes.append_separator_inj notMem_slash_signed notMem_slash_signed h
  obtain ⟨h, ha⟩ := Bytes.append_separator_inj notMem_slash_signed notMem_slash_signed h
  rw [← List.append_assoc, ← List.append_assoc] at hc
  exact ⟨h, Bytes.signed_injective ha, Bytes.signed_injective hb, List.append_cancel_right hc⟩

/-- Keys without options differ in the name or the numbers. -/
theorem keyText_nil_inj (h : keyText xmlconfig [] a b c = keyText xmlconfig' [] a' b' c') :
  xmlconfig = xmlconfig' ∧ a = a' ∧ b = b' ∧ c = c'
  := by
  obtain ⟨hxmlconfig, ha, hb, hc⟩ := keyText_inj List.not_mem_nil List.not_mem_nil h
  rw [if_pos rfl, List.append_nil, List.append_nil] at hc
  exact ⟨hxmlconfig, ha, hb, Bytes.signed_injective hc⟩

/-- A key with options is not one without. -/
theorem keyText_ne (hne : options ≠ []) (hoptions : 47 ∉ options) :
  keyText xmlconfig options a b c ≠ keyText xmlconfig' [] a' b' c'
  := by
  intro h
  obtain ⟨-, -, -, hc⟩ := keyText_inj hoptions List.not_mem_nil h
  rw [if_neg hne, if_pos rfl, List.append_nil] at hc
  have hdot : (46 : UInt8) ∉ Bytes.signed c' := Bytes.notMem_signed (by decide) (by decide)
  apply hdot
  rw [← hc]
  simp

/-! ### Values -/

/-- `struct stat_info`. -/
structure StatInfo where
  size : Int64
  atime : Int64
  mtime : Int64
  ctime : Int64
  expired : Int32
  deriving DecidableEq

namespace StatInfo

/-- The size of the structure. -/
def bytesSize : ℕ := 40

/-- The place of the field `expired`. -/
def expiredOffset : ℕ := 32

/-- The bytes of the structure, which end in four bytes that belong to no field. -/
def bytes (st : StatInfo) (pad : List.Vector UInt8 4) : List UInt8 :=
  Bytes.le64 st.size.toUInt64 ++ (Bytes.le64 st.atime.toUInt64 ++ (Bytes.le64 st.mtime.toUInt64 ++
    (Bytes.le64 st.ctime.toUInt64 ++ (Bytes.le32 st.expired.toUInt32 ++ pad.toList))))

/-- The number of 64 bits at a place of memory. -/
def int64At (memory : List UInt8) (pos : ℕ) : Int64 :=
  (Bytes.getLe64 (memory.drop pos)).toInt64

/-- The structure at the start of memory. -/
def ofBytes (memory : List UInt8) : StatInfo where
  size := int64At memory 0
  atime := int64At memory 8
  mtime := int64At memory 16
  ctime := int64At memory 24
  expired := headerInt memory expiredOffset

/-- What a stat of a tile returns when there is none. -/
def missing : StatInfo where
  size := -1
  atime := 0
  mtime := 0
  ctime := 0
  expired := 0

/-- The structure for a metatile of `sz` bytes that is written at a time. -/
def written (sz : Int32) (time : Int64) : StatInfo where
  size := sz.toInt64
  atime := time
  mtime := time
  ctime := time
  expired := 0

/-- Memory in which the structure at the start is marked as expired. -/
def setExpired (memory : List UInt8) : List UInt8 :=
  Bytes.copyTo memory expiredOffset (Bytes.le32 1)

variable {st : StatInfo} {pad : List.Vector UInt8 4} {memory : List UInt8}

@[simp]
theorem length_bytes :
  (st.bytes pad).length = bytesSize
  := by
  simp only [bytes, List.length_append, Bytes.length_le64, Bytes.length_le32, pad.toList_length]
  rfl

theorem int64At_append {front back : List UInt8} {pos : ℕ} (n : Int64)
    (h : front.length = pos) :
  int64At (front ++ (Bytes.le64 n.toUInt64 ++ back)) pos = n
  := by
  rw [int64At, List.drop_left' h, Bytes.getLe64_le64]
  rfl

/-- The structure is read back from its bytes. -/
theorem ofBytes_bytes :
  ofBytes (st.bytes pad ++ memory) = st
  := by
  have hsize : int64At (st.bytes pad ++ memory) 0 = st.size := by
    rw [int64At, List.drop_zero, bytes, List.append_assoc, Bytes.getLe64_le64]
    rfl
  have hatime : int64At (st.bytes pad ++ memory) 8 = st.atime := by
    simp only [bytes, List.append_assoc]
    apply int64At_append st.atime rfl
  have hmtime : int64At (st.bytes pad ++ memory) 16 = st.mtime := by
    simp only [bytes, List.append_assoc]
    rw [← List.append_assoc]
    apply int64At_append st.mtime rfl
  have hctime : int64At (st.bytes pad ++ memory) 24 = st.ctime := by
    simp only [bytes, List.append_assoc]
    rw [← List.append_assoc, ← List.append_assoc]
    apply int64At_append st.ctime rfl
  have hexpired : headerInt (st.bytes pad ++ memory) expiredOffset = st.expired := by
    simp only [bytes, List.append_assoc]
    rw [← List.append_assoc, ← List.append_assoc, ← List.append_assoc]
    apply StoreFile.headerInt_append st.expired rfl
  rw [ofBytes, hsize, hatime, hmtime, hctime, hexpired]

/-- A value that is marked as expired is expired. -/
theorem expired_setExpired (h : expiredOffset ≤ memory.length) :
  (ofBytes (setExpired memory)).expired = 1
  := by
  rw [setExpired, Bytes.copyTo, List.append_assoc]
  apply StoreFile.headerInt_append 1
  rw [List.length_take, Nat.min_eq_left h]

/-- The metatile in a value that is marked as expired. -/
theorem drop_setExpired (h : expiredOffset + 4 ≤ memory.length) :
  (setExpired memory).drop bytesSize = memory.drop bytesSize
  := by
  have hlength : (memory.take expiredOffset ++ Bytes.le32 1).length = expiredOffset + 4 := by
    rw [List.length_append, List.length_take, Nat.min_eq_left (by omega), Bytes.length_le32]
  rw [setExpired, Bytes.copyTo, List.drop_append, hlength, List.drop_eq_nil_of_le, List.drop_drop]
  · rfl
  · rw [hlength]
    decide

/-- Marking a value as expired changes the structure at its start only. -/
theorem setExpired_append {stat m : List UInt8} (h : stat.length = bytesSize) :
  setExpired (stat ++ m) = setExpired stat ++ m ∧
    (setExpired stat).length = bytesSize
  := by
  have htake : expiredOffset ≤ stat.length := by
    rw [h]
    decide
  have hdrop : expiredOffset + (Bytes.le32 1).length ≤ stat.length := by
    rw [h]
    decide
  constructor
  · rw [setExpired, setExpired, Bytes.copyTo, Bytes.copyTo, List.take_append_of_le_length htake,
      List.drop_append_of_le_length hdrop, List.append_assoc _ _ m]
  · rw [setExpired, Bytes.copyTo, List.length_append, List.length_append, List.length_take,
      List.length_drop, h]
    rfl

end StatInfo

/-- What happens while a metatile is written: whether memory can be allocated, whether the value
is accepted, the time, and the bytes of the structure that belong to no field. -/
structure WriteOutcome where
  allocated : Bool
  accepted : Bool
  time : Int64
  pad : List.Vector UInt8 4

/-- The value that is written. -/
def writtenValue (buf : List UInt8) (sz : Int32) (o : WriteOutcome) : List UInt8 :=
  (StatInfo.written sz o.time).bytes o.pad ++ buf

/-- The length of the structure and the header of a metatile behind it. -/
def headerLen : ℕ := StatInfo.bytesSize + MetaTile.headerSize

/-! ### Reading a tile -/

/-- An entry of the index, and whether the tiles are compressed. -/
structure HeaderEntry where
  compressed : ℤ
  offset : Int32
  size : Int32

/-- The reasons to reject the header of a metatile. -/
inductive HeaderError where
  | magicMismatch
  | badCount (compressed : ℤ) (count : Int32)
  | truncating (compressed : ℤ) (tileSize : Int32) (sz : ℕ)

namespace HeaderError

/-- The value that is returned for an error. -/
def ret : HeaderError → ℤ
  | magicMismatch => -4
  | badCount .. => -5
  | truncating .. => -6

/-- The variable `compressed` when an error is found. -/
def compressed : HeaderError → Option ℤ
  | magicMismatch => none
  | badCount compressed _ | truncating compressed .. => some compressed

/-- The text that is logged for an error. -/
def message : HeaderError → List UInt8
  | magicMismatch => Bytes.ofString "Meta file header magic mismatch\n"
  | badCount _ count =>
      Bytes.ofString "Meta file header bad count " ++ Bytes.signed count.toInt ++
        Bytes.ofString " != " ++ Bytes.signed (metatile * metatile) ++ Bytes.ofString "\n"
  | truncating _ tileSize sz =>
      Bytes.ofString "Truncating tile " ++ Bytes.signed tileSize.toInt ++
        Bytes.ofString " to fit buffer of " ++ Bytes.signed sz ++ Bytes.ofString "\n"

end HeaderError

/-- A message that is printed into the buffer for it. -/
def logMsg (message : List UInt8) : Option (List UInt8) := some (message.take 1023)

/-- The result of reading a tile when the header is rejected. -/
def HeaderError.tileRead (e : HeaderError) (buf : List UInt8) : TileRead :=
  ⟨e.ret, buf, e.compressed, logMsg e.message⟩

/-- The result when there is no memory for the header. -/
def allocationFailure (buf : List UInt8) : TileRead :=
  ⟨-1, buf, none, logMsg (Bytes.ofString "Failed to allocate memory for metatile header\n")⟩

/-- The entry of the index for a tile, if it fits into a buffer of `sz` bytes. -/
def checkHeader (header : List UInt8) (metaOffset sz : ℕ) : Except HeaderError HeaderEntry :=
  match magicCompressed header with
  | none => .error .magicMismatch
  | some compressed =>
      let count := headerInt header 4
      if count ≠ Int32.ofNat (metatile * metatile) then .error (.badCount compressed count)
      else
        let place := MetaTile.layoutSize + 8 * metaOffset
        let size := headerInt header (place + 4)
        if toSize size > sz then .error (.truncating compressed size sz)
        else .ok ⟨compressed, headerInt header place, size⟩

/-- The place of a tile in a value. -/
def fileOffset (offset : Int32) : ℕ :=
  ((offset.toInt + StatInfo.bytesSize) % 2 ^ 64).toNat

variable {t : MetaTile} {i sz : ℕ} {stat : List UInt8}

/-- The header of a metatile is accepted. -/
theorem checkHeader_metatile (ha : t.Aligned) (hs : t.Small) (hi : i < metatile * metatile)
    (hsz : (t.tileAt i).length ≤ sz) :
  checkHeader (t.layout ++ t.index) i sz =
    .ok ⟨0, (t.entryAt i).offset, (t.entryAt i).size⟩
  := by
  obtain ⟨hoffset, hsize⟩ := StoreFile.headerInt_entry (t := t) hi
  rw [MetaTile.offsets_eq ha hs hi] at hoffset hsize
  obtain ⟨-, hlength⟩ := MetaTile.toInt_entryAt hs hi
  rw [checkHeader, StoreFile.magicCompressed_layout]
  dsimp only
  rw [StoreFile.headerInt_count, if_neg (not_not.mpr rfl), hoffset, hsize,
    StoreFile.toSize_of_nonneg hlength, if_neg (by omega)]

/-- The header behind the structure of a value. -/
theorem take_drop_value (ha : t.Aligned) (hs : t.Small)
    (hstat : stat.length = StatInfo.bytesSize) :
  ((stat ++ t.metatilebuffer).drop StatInfo.bytesSize).take MetaTile.headerSize =
    t.layout ++ t.index
  := by
  rw [List.drop_left' hstat, StoreFile.take_metatilebuffer ha hs]

/-- The place of a tile in a value. -/
theorem fileOffset_entryAt (hs : t.Small) (hi : i < metatile * metatile) :
  fileOffset (t.entryAt i).offset = StatInfo.bytesSize + t.start i
  := by
  obtain ⟨hoffset, -⟩ := MetaTile.toInt_entryAt hs hi
  have hlt := (t.entryAt i).offset.toInt_lt
  rw [fileOffset, hoffset]
  rw [hoffset] at hlt
  simp only [StatInfo.bytesSize]
  omega

/-- A tile stands at its place in a value. -/
theorem tile_of_value (ha : t.Aligned) (hs : t.Small) (hi : i < metatile * metatile)
    (hstat : stat.length = StatInfo.bytesSize) :
  ((stat ++ t.metatilebuffer).drop (fileOffset (t.entryAt i).offset)).take
      (toSize (t.entryAt i).size) =
    t.tileAt i
  := by
  obtain ⟨-, hsize⟩ := MetaTile.toInt_entryAt hs hi
  rw [fileOffset_entryAt hs hi, StoreFile.toSize_of_nonneg hsize, ← List.drop_drop,
    List.drop_left' hstat, StoreFile.drop_metatilebuffer ha hs hi]

/-- A value has room for the structure and the header. -/
theorem headerLen_le_length (ha : t.Aligned) (hs : t.Small)
    (hstat : stat.length = StatInfo.bytesSize) :
  headerLen ≤ (stat ++ t.metatilebuffer).length
  := by
  rw [List.length_append, hstat, MetaTile.metatilebuffer_eq ha hs, List.length_append,
    MetaTile.length_header, headerLen]
  omega

/-- A tile ends within its value. -/
theorem tile_end_le (ha : t.Aligned) (hs : t.Small) (hi : i < metatile * metatile)
    (hstat : stat.length = StatInfo.bytesSize) :
  fileOffset (t.entryAt i).offset + toSize (t.entryAt i).size ≤ (stat ++ t.metatilebuffer).length
  := by
  obtain ⟨-, hsize⟩ := MetaTile.toInt_entryAt hs hi
  have hstart := MetaTile.start_mono (t := t) (Nat.succ_le_of_lt hi)
  have hlength := MetaTile.length_eq_length_metatilebuffer ha hs
  rw [MetaTile.length_eq ha hs, Nat.cast_inj] at hlength
  rw [Nat.succ_eq_add_one, MetaTile.start_succ, hlength] at hstart
  rw [fileOffset_entryAt hs hi, StoreFile.toSize_of_nonneg hsize, List.length_append, hstat]
  omega

/-- The place of any tile is in the index. -/
theorem xyzToMetaOffset_lt (x y : Int32) :
  MetaTile.xyzToMetaOffset x y < metatile * metatile
  := by
  have h := MetaTile.xyzToMetaOffset_eq (x := x) (y := y)
  simp only [metatile] at h ⊢
  omega

end ObjectStore
