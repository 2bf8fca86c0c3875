import ModTile.Bytes.Bits
import ModTile.Bytes.Buffer
import ModTile.Bytes.LittleEndian
import ModTile.Config
import Mathlib.Data.List.FinRange

/-!
# Metatiles

The layout of a metatile as `metaTile::save` writes it: a header with a magic word, the
number of tiles and the position of the metatile, an index with one entry for each tile,
and the data of the tiles one after the other.

Integers are written as the machine holds them, in two's complement and with the least
significant byte first.
-/

/-- `struct entry`: where the data of a tile is in the file. -/
structure Entry where
  offset : Int32
  size : Int32
  deriving DecidableEq

/-- The bytes of an entry. -/
def Entry.bytes (entry : Entry) : List UInt8 :=
  Bytes.le32 entry.offset.toUInt32 ++ Bytes.le32 entry.size.toUInt32

/-- The class `metaTile`: the position of a metatile, its map and its options, and the data of
its tiles. -/
structure MetaTile where
  xmlconfig : List UInt8
  options : List UInt8
  x : Int32
  y : Int32
  z : Int32
  tile : Fin metatile → Fin metatile → List UInt8

namespace MetaTile

/-- The number of bytes of `struct meta_layout` without the index. -/
def layoutSize : ℕ := 20

/-- The number of bytes of the header and the index. -/
def headerSize : ℕ := layoutSize + 8 * (metatile * metatile)

/-- The place of a tile in the index table. -/
def xyzToMetaOffset (x y : Int32) : ℕ :=
  (x &&& 7).toInt.toNat * metatile + (y &&& 7).toInt.toNat

/-- The pairs `(ox, oy)` in the order of the two nested loops over the tiles. -/
def tileOrder : List (Fin metatile × Fin metatile) :=
  (List.finRange metatile).flatMap fun ox => (List.finRange metatile).map fun oy => (ox, oy)

/-- The index place of the tile `(ox, oy)` of a metatile. -/
def slot (t : MetaTile) (o : Fin metatile × Fin metatile) : ℕ :=
  xyzToMetaOffset (t.x + Int32.ofNat o.1) (t.y + Int32.ofNat o.2)

/-- One round of the loop that generates the offset table. -/
def putEntry (t : MetaTile) (state : (ℕ → Entry) × ℤ) (o : Fin metatile × Fin metatile) :
    (ℕ → Entry) × ℤ :=
  let size := Int32.ofNat (t.tile o.1 o.2).length
  (Function.update state.1 (t.slot o) { offset := Int32.ofInt state.2, size := size },
    state.2 + size.toInt)

/-- The offset table and the length of the metatile, from the loop over the tiles. -/
def offsetTable (t : MetaTile) : (ℕ → Entry) × ℤ :=
  tileOrder.foldl t.putEntry (fun _ => { offset := 0, size := 0 }, headerSize)

/-- The offset table. -/
def offsets (t : MetaTile) : ℕ → Entry := t.offsetTable.1

/-- The length of the metatile. -/
def length (t : MetaTile) : ℤ := t.offsetTable.2

/-- The bytes of `struct meta_layout`. -/
def layout (t : MetaTile) : List UInt8 :=
  [0x4D, 0x45, 0x54, 0x41] ++ Bytes.le32 (UInt32.ofNat (metatile * metatile)) ++
    Bytes.le32 t.x.toUInt32 ++ Bytes.le32 t.y.toUInt32 ++ Bytes.le32 t.z.toUInt32

/-- The bytes of the index. -/
def index (t : MetaTile) : List UInt8 :=
  (List.range (metatile * metatile)).flatMap fun i => (t.offsets i).bytes

/-- One round of the loop that writes the tiles. -/
def putTile (t : MetaTile) (buffer : List UInt8) (o : Fin metatile × Fin metatile) : List UInt8 :=
  Bytes.copyTo buffer (t.offsets (t.slot o)).offset.toInt.toNat (t.tile o.1 o.2)

/-- The buffer that `metaTile::save` passes to the storage backend. -/
def metatilebuffer (t : MetaTile) : List UInt8 :=
  let buffer := List.replicate t.length.toNat 0
  let buffer := Bytes.copyTo buffer 0 t.layout
  let buffer := Bytes.copyTo buffer layoutSize t.index
  tileOrder.foldl t.putTile buffer

/-! ### The order of the tiles -/

/-- The tile of the `i`-th round of the loops. -/
def order (i : ℕ) : Fin metatile × Fin metatile :=
  (⟨i / metatile % metatile, Nat.mod_lt _ (by decide)⟩, ⟨i % metatile, Nat.mod_lt _ (by decide)⟩)

/-- The data of the `i`-th tile. -/
def tileAt (t : MetaTile) (i : ℕ) : List UInt8 :=
  t.tile (order i).1 (order i).2

/-- The data of the first `n` tiles. -/
def dataTo (t : MetaTile) (n : ℕ) : List UInt8 :=
  Bytes.blocks t.tileAt n

/-- The place of the `i`-th tile in the file. -/
def start (t : MetaTile) (i : ℕ) : ℕ :=
  headerSize + (t.dataTo i).length

/-- The entry of the `i`-th tile. -/
def entryAt (t : MetaTile) (i : ℕ) : Entry where
  offset := Int32.ofNat (t.start i)
  size := Int32.ofNat (t.tileAt i).length

/-- The coordinates are those of the first tile of a metatile. -/
structure Aligned (t : MetaTile) : Prop where
  x_mod : t.x.toInt % metatile = 0
  y_mod : t.y.toInt % metatile = 0

/-- The size of the file can be represented. -/
def Small (t : MetaTile) : Prop :=
  headerSize + (tileOrder.map fun o => (t.tile o.1 o.2).length).sum < 2 ^ 31

variable {t : MetaTile} {i n : ℕ} {x y : Int32}

theorem tileOrder_eq :
  tileOrder = (List.range (metatile * metatile)).map order
  := by
  decide

theorem xyzToMetaOffset_eq :
  (xyzToMetaOffset x y : ℤ) = x.toInt % metatile * metatile + y.toInt % metatile
  := by
  rw [xyzToMetaOffset, Bits.toInt_and_seven, Bits.toInt_and_seven, metatile]
  omega

/-- The coordinates of the tiles of a metatile do not overflow. -/
theorem toInt_add_ofNat (h : x.toInt % metatile = 0) (o : Fin metatile) :
  (x + Int32.ofNat o).toInt = x.toInt + o.1
  := by
  have ho : o.1 < 8 := o.2
  have hlt := x.toInt_lt
  have hle := x.le_toInt
  rw [metatile] at h
  rw [Int32.toInt_add, Int32.toInt_ofNat_of_lt (by omega), Int.bmod_eq_of_le]
  · omega
  · omega

/-- The place of a tile in the index. -/
theorem Aligned.slot_eq (h : t.Aligned) (o : Fin metatile × Fin metatile) :
  t.slot o = o.1.1 * metatile + o.2.1
  := by
  have h1 : o.1.1 < 8 := o.1.2
  have h2 : o.2.1 < 8 := o.2.2
  have hx := h.x_mod
  have hy := h.y_mod
  have hslot : (t.slot o : ℤ) = o.1.1 * metatile + o.2.1 := by
    rw [slot, xyzToMetaOffset_eq, toInt_add_ofNat hx, toInt_add_ofNat hy]
    simp only [metatile, Nat.cast_ofNat] at hx hy ⊢
    omega
  exact_mod_cast hslot

theorem Aligned.slot_order (h : t.Aligned) (hi : i < metatile * metatile) :
  t.slot (order i) = i
  := by
  rw [h.slot_eq, order]
  simp only [metatile] at hi ⊢
  omega

/-- The tile at a place in the index. -/
theorem order_eq (o : Fin metatile × Fin metatile) :
  order (o.1.1 * metatile + o.2.1) = o
  := by
  have h1 : o.1.1 < 8 := o.1.2
  have h2 : o.2.1 < 8 := o.2.2
  apply Prod.ext
  · apply Fin.ext
    simp only [order, metatile]
    omega
  · apply Fin.ext
    simp only [order, metatile]
    omega

theorem start_zero :
  t.start 0 = headerSize
  := by
  rw [start, dataTo, Bytes.blocks, List.range_zero, List.flatMap_nil, List.length_nil,
    Nat.add_zero]

theorem start_succ :
  t.start (i + 1) = t.start i + (t.tileAt i).length
  := by
  rw [start, start, dataTo, dataTo, Bytes.blocks_succ, List.length_append, Nat.add_assoc]

theorem start_mono (h : i ≤ n) :
  t.start i ≤ t.start n
  := by
  apply Nat.add_le_add_left (Bytes.length_blocks_mono h)

theorem small_iff :
  t.Small ↔ t.start (metatile * metatile) < 2 ^ 31
  := by
  rw [Small, tileOrder_eq, start, dataTo, Bytes.blocks, List.length_flatMap, List.map_map]
  rfl

/-! ### The offset table -/

theorem toInt_ofNat_tileAt (h : t.Small) (hi : i < metatile * metatile) :
  (Int32.ofNat (t.tileAt i).length).toInt = (t.tileAt i).length
  := by
  have hstart := start_mono (t := t) (Nat.succ_le_of_lt hi)
  rw [Nat.succ_eq_add_one, start_succ] at hstart
  have hsmall := small_iff.mp h
  apply Int32.toInt_ofNat_of_lt
  omega

/-- The table and the length after the first `n` rounds of the loop. -/
theorem foldl_putEntry (ha : t.Aligned) (hs : t.Small) (hn : n ≤ metatile * metatile) :
  (List.range n).foldl (fun state i => t.putEntry state (order i))
      (fun _ => { offset := 0, size := 0 }, (headerSize : ℤ)) =
    (fun i => if i < n then t.entryAt i else { offset := 0, size := 0 }, (t.start n : ℤ))
  := by
  induction n with
  | zero =>
      rw [start_zero]
      rfl
  | succ n ih =>
      rw [List.range_succ, List.foldl_append, ih (by omega), List.foldl_cons, List.foldl_nil,
        putEntry, ha.slot_order (by omega)]
      apply Prod.ext
      · funext i
        dsimp only
        rcases Nat.lt_trichotomy i n with h | rfl | h
        · rw [Function.update_of_ne h.ne, if_pos h, if_pos (by omega)]
        · rw [Function.update_self, if_pos (by omega), Int32.ofInt_eq_ofNat]
          rfl
        · rw [Function.update_of_ne h.ne', if_neg (by omega), if_neg (by omega)]
      · dsimp only
        rw [start_succ, Nat.cast_add, ← toInt_ofNat_tileAt hs (by omega)]
        rfl

theorem offsetTable_eq (ha : t.Aligned) (hs : t.Small) :
  t.offsetTable =
    (fun i => if i < metatile * metatile then t.entryAt i else { offset := 0, size := 0 },
      (t.start (metatile * metatile) : ℤ))
  := by
  rw [offsetTable, tileOrder_eq, List.foldl_map, foldl_putEntry ha hs (Nat.le_refl _)]

theorem offsets_eq (ha : t.Aligned) (hs : t.Small) (hi : i < metatile * metatile) :
  t.offsets i = t.entryAt i
  := by
  rw [offsets, offsetTable_eq ha hs]
  apply if_pos hi

theorem length_eq (ha : t.Aligned) (hs : t.Small) :
  t.length = t.start (metatile * metatile)
  := by
  rw [length, offsetTable_eq ha hs]

/-- The numbers in an entry are the place and the size of the tile. -/
theorem toInt_entryAt (hs : t.Small) (hi : i < metatile * metatile) :
  (t.entryAt i).offset.toInt = t.start i ∧ (t.entryAt i).size.toInt = (t.tileAt i).length
  := by
  use ?_, toInt_ofNat_tileAt hs hi
  have hstart := start_mono (t := t) hi.le
  have hsmall := small_iff.mp hs
  apply Int32.toInt_ofNat_of_lt
  omega

/-- The ranges in the index follow the header, each begins where the one before ends, and the
last one ends at the end of the file. -/
structure Contiguous (t : MetaTile) : Prop where
  first : (t.offsets 0).offset.toInt = headerSize
  next : ∀ i, i + 1 < metatile * metatile →
    (t.offsets (i + 1)).offset.toInt = (t.offsets i).offset.toInt + (t.offsets i).size.toInt
  last : (t.offsets (metatile * metatile - 1)).offset.toInt +
    (t.offsets (metatile * metatile - 1)).size.toInt = t.length
  disjoint : ∀ i j, i < j → j < metatile * metatile →
    (t.offsets i).offset.toInt + (t.offsets i).size.toInt ≤ (t.offsets j).offset.toInt

theorem contiguous (ha : t.Aligned) (hs : t.Small) :
  t.Contiguous
  := by
  have h : ∀ i, i < metatile * metatile → (t.offsets i).offset.toInt = t.start i ∧
      (t.offsets i).offset.toInt + (t.offsets i).size.toInt = t.start (i + 1) := by
    intro i hi
    obtain ⟨hoffset, hsize⟩ := toInt_entryAt hs hi
    rw [offsets_eq ha hs hi, start_succ, hoffset, hsize]
    use rfl
    rfl
  constructor
  case first =>
    rw [(h 0 (by decide)).1, start_zero]
  case next =>
    intro i hi
    rw [(h (i + 1) hi).1, (h i (by omega)).2]
  case last =>
    rw [(h _ (by decide)).2, length_eq ha hs]
    rfl
  case disjoint =>
    intro i j hij hj
    rw [(h i (by omega)).2, (h j hj).1]
    exact_mod_cast start_mono hij

/-! ### The buffer -/

theorem length_layout :
  t.layout.length = layoutSize
  := by
  simp [layout, layoutSize]

theorem length_index :
  t.index.length = 8 * (metatile * metatile)
  := by
  apply Bytes.length_blocks
  intro i
  simp [Entry.bytes]

theorem length_header :
  (t.layout ++ t.index).length = headerSize
  := by
  rw [List.length_append, length_layout, length_index]
  rfl

/-- The buffer after the tiles of the first `n` rounds have been written. -/
theorem foldl_putTile (ha : t.Aligned) (hs : t.Small) (hn : n ≤ metatile * metatile) :
  (List.range n).foldl (fun buffer i => t.putTile buffer (order i))
      (t.layout ++ t.index ++ List.replicate (t.dataTo (metatile * metatile)).length 0) =
    t.layout ++ t.index ++ t.dataTo n ++
      List.replicate ((t.dataTo (metatile * metatile)).length - (t.dataTo n).length) 0
  := by
  induction n with
  | zero => simp [dataTo, Bytes.blocks]
  | succ n ih =>
      have hpos : (t.layout ++ t.index ++ t.dataTo n).length = t.start n := by
        rw [List.length_append, length_header]
        rfl
      have hdata : t.dataTo (n + 1) = t.dataTo n ++ t.tileAt n := Bytes.blocks_succ
      have hle := Bytes.length_blocks_mono (f := t.tileAt) hn
      rw [← dataTo, ← dataTo, hdata, List.length_append] at hle
      rw [List.range_succ, List.foldl_append, ih (by omega), List.foldl_cons, List.foldl_nil,
        putTile, ha.slot_order (by omega), offsets_eq ha hs (by omega),
        (toInt_entryAt hs (by omega)).1, Int.toNat_natCast, hdata, List.length_append,
        ← Nat.sub_sub, ← List.append_assoc]
      apply Bytes.copyTo_replicate hpos
      rw [tileAt] at hle
      omega

/-- The file has the header, the index, and the data of the tiles. -/
theorem metatilebuffer_eq (ha : t.Aligned) (hs : t.Small) :
  t.metatilebuffer = t.layout ++ t.index ++ t.dataTo (metatile * metatile)
  := by
  have hlength : t.length.toNat =
      layoutSize + (8 * (metatile * metatile) + (t.dataTo (metatile * metatile)).length) := by
    rw [length_eq ha hs, Int.toNat_natCast, start, headerSize, Nat.add_assoc]
  have hlayout : Bytes.copyTo (List.replicate t.length.toNat 0) 0 t.layout =
      t.layout ++ List.replicate (8 * (metatile * metatile) +
        (t.dataTo (metatile * metatile)).length) 0 := by
    rw [← List.nil_append (List.replicate t.length.toNat 0), Bytes.copyTo_replicate List.length_nil,
      List.nil_append, length_layout, hlength, Nat.add_sub_cancel_left]
    rw [hlength, length_layout]
    omega
  rw [metatilebuffer, hlayout, Bytes.copyTo_replicate length_layout (by rw [length_index]; omega),
    length_index, Nat.add_sub_cancel_left, tileOrder_eq, List.foldl_map,
    foldl_putTile ha hs (Nat.le_refl _), Nat.sub_self, List.replicate_zero, List.append_nil]

/-- The length of the metatile is that of the buffer. -/
theorem length_eq_length_metatilebuffer (ha : t.Aligned) (hs : t.Small) :
  t.length = t.metatilebuffer.length
  := by
  rw [metatilebuffer_eq ha hs, List.length_append, length_header, length_eq ha hs]
  rfl

end MetaTile
