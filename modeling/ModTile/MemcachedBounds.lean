import ModTile.StoreFileFailures
import ModTile.StoreMemcached

/-!
# Values of any length

The functions of `store_memcached.c` that read a value take its length for granted.  They copy the
`struct stat_info` and the header of the metatile without comparing them with the length of the
value, and the tile at the place that the index gives.  Here the accesses to the value are written
out, and the lengths for which they stay inside.
-/

open StoreFile (TileRead ObjectSize toSize headerInt)

namespace StoreMemcached

open ObjectStore

/-- An access to some bytes of a value. -/
structure Access where
  pos : ℕ
  len : ℕ

/-- The bytes of an access are bytes of the value. -/
def Access.InBounds (a : Access) (value : List UInt8) : Prop :=
  ∀ k < a.len, a.pos + k < value.length

/-- The header of the metatile in a value. -/
def metaHeader (value : List UInt8) : List UInt8 :=
  (value.drop StatInfo.bytesSize).take MetaTile.headerSize

/-- The accesses of `memcached_tile_read`: the header, and the tile if the header is accepted. -/
def tileReadAccesses (value : List UInt8) (x y : Int32) (sz : ℕ) : List Access :=
  ⟨StatInfo.bytesSize, MetaTile.headerSize⟩ ::
    match checkHeader (metaHeader value) (MetaTile.xyzToMetaOffset x y) sz with
    | .error _ => []
    | .ok entry => [⟨fileOffset entry.offset, toSize entry.size⟩]

/-- The accesses of `memcached_tile_stat`. -/
def tileStatAccesses : List Access :=
  [⟨0, StatInfo.bytesSize⟩, ⟨StatInfo.bytesSize, MetaTile.headerSize⟩]

/-- The accesses of `memcached_metatile_expire`: the field `expired`, and the whole value. -/
def expireAccesses (value : List UInt8) : List Access :=
  [⟨StatInfo.expiredOffset, 4⟩, ⟨0, value.length⟩]

/-- What `memcached_tile_stat` returns.  There is no result when bytes behind the end of the value
are read. -/
def memcachedTileStat (cache : Cache) (xmlconfig options : List UInt8) (x y z : Int32) :
    Option StatInfo :=
  match cache (memcachedXyzoToStoragekey xmlconfig options x y z) with
  | none => some .missing
  | some value =>
      if value.length < headerLen then none
      else some
        { StatInfo.ofBytes value with
          size := (headerInt (metaHeader value)
            (MetaTile.layoutSize + 8 * MetaTile.xyzToMetaOffset x y + 4)).toInt64 }

/-- The value is too short for the `struct stat_info` and the header of the metatile, or for the
tile that the index has. -/
def TooShort (value : List UInt8) (x y : Int32) (sz : ℕ) : Prop :=
  value.length < headerLen ∨
    ∃ entry, checkHeader (metaHeader value) (MetaTile.xyzToMetaOffset x y) sz = .ok entry ∧
      value.length < fileOffset entry.offset + toSize entry.size

variable {cache : Cache} {xmlconfig options value : List UInt8} {x y z : Int32} {sz : ℕ}

/-- An access ends inside the value. -/
theorem inBounds_iff {pos len : ℕ} :
  (⟨pos, len⟩ : Access).InBounds value ↔ len = 0 ∨ pos + len ≤ value.length
  := by
  rw [Access.InBounds]
  constructor
  · intro h
    rcases Nat.eq_zero_or_pos len with hlen | hlen
    · left
      apply hlen
    · right
      have hlast := h (len - 1) (Nat.sub_lt hlen Nat.one_pos)
      simp only at hlast
      omega
  · intro h k hk
    simp only at hk ⊢
    omega

/-- The header is inside the value. -/
theorem header_inBounds_iff :
  (⟨StatInfo.bytesSize, MetaTile.headerSize⟩ : Access).InBounds value ↔
    headerLen ≤ value.length
  := by
  rw [inBounds_iff, headerLen]
  apply or_iff_right
  decide

/-- The accesses of reading a tile, when the header is inside the value. -/
theorem tileReadAccesses_inBounds_iff :
  (∀ a ∈ tileReadAccesses value x y sz, a.InBounds value) ↔
    headerLen ≤ value.length ∧
      ∀ entry, checkHeader (metaHeader value) (MetaTile.xyzToMetaOffset x y) sz = .ok entry →
        toSize entry.size = 0 ∨ fileOffset entry.offset + toSize entry.size ≤ value.length
  := by
  rw [tileReadAccesses, List.forall_mem_cons, header_inBounds_iff]
  apply and_congr_right
  intro _
  cases checkHeader (metaHeader value) (MetaTile.xyzToMetaOffset x y) sz with
  | error e => simp
  | ok entry => simp [inBounds_iff]

/-- Reading a tile from a value whose header is inside. -/
theorem memcachedTileRead_of_le
    (h : cache (memcachedXyzoToStoragekey xmlconfig options x y z) = some value)
    (hlen : headerLen ≤ value.length) :
  memcachedTileRead cache xmlconfig options x y z sz true =
    match checkHeader (metaHeader value) (MetaTile.xyzToMetaOffset x y) sz with
    | .error e => some (e.tileRead [])
    | .ok entry =>
        if toSize entry.size ≠ 0 ∧ value.length < fileOffset entry.offset + toSize entry.size then
          none
        else
          some ⟨toSize entry.size, (value.drop (fileOffset entry.offset)).take (toSize entry.size),
            some entry.compressed, none⟩
  := by
  simp only [memcachedTileRead, h, Bool.not_true, Bool.false_eq_true, if_false,
    if_neg (Nat.not_lt.mpr hlen)]
  rfl

/-- Reading a tile has a result exactly when its accesses are inside the value. -/
theorem isSome_memcachedTileRead
    (h : cache (memcachedXyzoToStoragekey xmlconfig options x y z) = some value) :
  (memcachedTileRead cache xmlconfig options x y z sz true).isSome ↔
    ∀ a ∈ tileReadAccesses value x y sz, a.InBounds value
  := by
  rw [tileReadAccesses_inBounds_iff]
  rcases Nat.lt_or_ge value.length headerLen with hlen | hlen
  · simp [memcachedTileRead, h, hlen]
  · rw [memcachedTileRead_of_le h hlen]
    cases checkHeader (metaHeader value) (MetaTile.xyzToMetaOffset x y) sz with
    | error e => simp [hlen]
    | ok entry =>
        dsimp only
        split_ifs with hshort
        · simp only [Option.isSome_none, Bool.false_eq_true, false_iff, not_and, not_forall]
          intro _
          refine ⟨entry, rfl, ?_⟩
          omega
        · simp only [Option.isSome_some, true_iff]
          refine ⟨hlen, ?_⟩
          rintro entry' heq
          obtain rfl := Except.ok.inj heq
          omega

/-- What is asked of reading a tile: its accesses are inside the value, it returns a negative
number for a value that is too short, and another result is the number of bytes of the value that
have been copied. -/
structure SafeRead (cache : Cache) (xmlconfig options : List UInt8) (x y z : Int32) (sz : ℕ)
    (value : List UInt8) : Prop where
  inBounds : ∀ a ∈ tileReadAccesses value x y sz, a.InBounds value
  short : ∀ r, memcachedTileRead cache xmlconfig options x y z sz true = some r →
    TooShort value x y sz → r.ret < 0
  copied : ∀ r, memcachedTileRead cache xmlconfig options x y z sz true = some r → 0 ≤ r.ret →
    r.buf.length = r.ret.toNat ∧ ∃ pos, r.buf = (value.drop pos).take r.ret.toNat

/-- A tile of a value that is long enough is read as asked. -/
theorem safeRead_of_not_tooShort
    (h : cache (memcachedXyzoToStoragekey xmlconfig options x y z) = some value)
    (hlong : ¬ TooShort value x y sz) :
  SafeRead cache xmlconfig options x y z sz value
  := by
  have hlen : headerLen ≤ value.length := by
    by_contra hlen
    apply hlong (Or.inl (Nat.lt_of_not_le hlen))
  have htile : ∀ entry,
      checkHeader (metaHeader value) (MetaTile.xyzToMetaOffset x y) sz = .ok entry →
        fileOffset entry.offset + toSize entry.size ≤ value.length := by
    intro entry hentry
    by_contra htile
    apply hlong (Or.inr ⟨entry, hentry, Nat.lt_of_not_le htile⟩)
  constructor
  case inBounds =>
    rw [tileReadAccesses_inBounds_iff]
    exact ⟨hlen, fun entry hentry => Or.inr (htile entry hentry)⟩
  case short => exact fun _ _ hshort => absurd hshort hlong
  case copied =>
    intro r hr hret
    rw [memcachedTileRead_of_le h hlen] at hr
    cases hcheck : checkHeader (metaHeader value) (MetaTile.xyzToMetaOffset x y) sz with
    | error e =>
        rw [hcheck] at hr
        obtain rfl := Option.some.inj hr
        cases e <;> contradiction
    | ok entry =>
        rw [hcheck] at hr
        dsimp only at hr
        have hfits := htile entry hcheck
        rw [if_neg (by omega)] at hr
        obtain rfl := Option.some.inj hr
        refine ⟨?_, fileOffset entry.offset, ?_⟩
        · rw [List.length_take, List.length_drop, Int.toNat_natCast]
          omega
        · rw [Int.toNat_natCast]

/-- A tile of a value that is too short is not read as asked. -/
theorem not_tooShort_of_safeRead
    (h : cache (memcachedXyzoToStoragekey xmlconfig options x y z) = some value)
    (hsafe : SafeRead cache xmlconfig options x y z sz value) :
  ¬ TooShort value x y sz
  := by
  intro hshort
  have hinBounds := tileReadAccesses_inBounds_iff.mp hsafe.inBounds
  rcases hshort with hlen | ⟨entry, hentry, htile⟩
  · apply hinBounds.1.not_gt hlen
  · have hzero : toSize entry.size = 0 := by
      have hbounds := hinBounds.2 entry hentry
      omega
    have hr : memcachedTileRead cache xmlconfig options x y z sz true = _ :=
      memcachedTileRead_of_le h hinBounds.1
    rw [hentry] at hr
    dsimp only at hr
    rw [if_neg (by simp [hzero])] at hr
    have hneg := hsafe.short _ hr (Or.inr ⟨entry, hentry, htile⟩)
    simp only at hneg
    omega

/-- The stat of a tile has a result exactly when its accesses are inside the value. -/
theorem isSome_memcachedTileStat
    (h : cache (memcachedXyzoToStoragekey xmlconfig options x y z) = some value) :
  ((memcachedTileStat cache xmlconfig options x y z).isSome ↔
      ∀ a ∈ tileStatAccesses, a.InBounds value) ∧
    ((∀ a ∈ tileStatAccesses, a.InBounds value) ↔ headerLen ≤ value.length)
  := by
  have haccesses : (∀ a ∈ tileStatAccesses, a.InBounds value) ↔ headerLen ≤ value.length := by
    simp only [tileStatAccesses, List.forall_mem_cons, inBounds_iff, List.not_mem_nil,
      false_implies, implies_true, and_true, headerLen]
    omega
  refine ⟨?_, haccesses⟩
  rw [haccesses, memcachedTileStat, h]
  dsimp only
  split_ifs with hlen
  · simp [hlen]
  · simp [Nat.le_of_not_lt hlen]

/-- Marking a metatile as expired has a result exactly when its accesses are inside the value. -/
theorem isSome_memcachedMetatileExpire
    (h : cache (memcachedXyzToStoragekey xmlconfig x y z) = some value) :
  ((memcachedMetatileExpire cache xmlconfig x y z).isSome ↔
      ∀ a ∈ expireAccesses value, a.InBounds value) ∧
    ((∀ a ∈ expireAccesses value, a.InBounds value) ↔
      StatInfo.expiredOffset + 4 ≤ value.length)
  := by
  have haccesses : (∀ a ∈ expireAccesses value, a.InBounds value) ↔
      StatInfo.expiredOffset + 4 ≤ value.length := by
    simp only [expireAccesses, List.forall_mem_cons, inBounds_iff, List.not_mem_nil,
      false_implies, implies_true, and_true]
    omega
  refine ⟨?_, haccesses⟩
  rw [haccesses, memcachedMetatileExpire]
  simp only [h, Option.isSome_map, expiredValue]
  split_ifs with hlen
  · simp [hlen]
  · simp [Nat.le_of_not_lt hlen]

/-- A tile is read as asked exactly when the value is long enough for the structures at its start
and for the tile.  The stat of a tile and marking a metatile as expired stay inside the value
exactly when it is long enough for the structures that they use. -/
theorem memcached_inBounds_iff (cache : Cache) (xmlconfig options : List UInt8) (x y z : Int32)
    (sz : ObjectSize) :
  (∀ value, cache (memcachedXyzoToStoragekey xmlconfig options x y z) = some value →
      (SafeRead cache xmlconfig options x y z sz value ↔ ¬ TooShort value x y sz) ∧
        ((∀ a ∈ tileStatAccesses, a.InBounds value) ↔ headerLen ≤ value.length)) ∧
    ∀ value, cache (memcachedXyzToStoragekey xmlconfig x y z) = some value →
      ((∀ a ∈ expireAccesses value, a.InBounds value) ↔
        StatInfo.expiredOffset + 4 ≤ value.length)
  := by
  constructor
  · intro value h
    exact ⟨⟨not_tooShort_of_safeRead h, safeRead_of_not_tooShort h⟩,
      (isSome_memcachedTileStat h).2⟩
  · intro value h
    apply (isSome_memcachedMetatileExpire h).2

/-- A value of one byte is not read inside its bounds by any of the functions. -/
theorem memcached_outOfBounds :
  ¬ SafeRead (fun _ => some [0]) [] [] 0 0 0 100 [0] ∧
    memcachedTileRead (fun _ => some [0]) [] [] 0 0 0 100 true = none ∧
    memcachedTileStat (fun _ => some [0]) [] [] 0 0 0 = none ∧
    memcachedMetatileExpire (fun _ => some [0]) [] 0 0 0 = none
  := by
  refine ⟨?_, rfl, rfl, rfl⟩
  intro h
  have hbounds := tileReadAccesses_inBounds_iff.mp h.inBounds
  apply absurd hbounds.1
  decide

end StoreMemcached
