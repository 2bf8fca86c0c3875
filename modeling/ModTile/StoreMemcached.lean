import ModTile.ObjectStore
import ModTile.Transition

/-!
# The memcached store

The functions of `store_memcached.c`, for a server that keeps a value for every key.  The key
for reading, expiring and deleting is made from the coordinates of the metatile, and for
reading also from the options.  The key for writing is made from the coordinates as they are
given, and never from the options.

So the store behaves as a map from metatiles as long as they are written without options.
-/

open StoreFile (TileRead toSize)
open Transition

namespace StoreMemcached

open ObjectStore

/-- The values that the server keeps. -/
abbrev Cache : Type := List UInt8 → Option (List UInt8)

/-- The key of the metatile of a tile. -/
def memcachedXyzoToStoragekey (xmlconfig options : List UInt8) (x y z : Int32) : List UInt8 :=
  storageKey xmlconfig options (origin x).toInt (origin y).toInt z.toInt

/-- The key of the metatile of a tile without options. -/
def memcachedXyzToStoragekey (xmlconfig : List UInt8) (x y z : Int32) : List UInt8 :=
  memcachedXyzoToStoragekey xmlconfig [] x y z

/-- Reading a tile into a buffer of `sz` bytes.  There is no result when bytes behind the end
of the value are read. -/
def memcachedTileRead (cache : Cache) (xmlconfig options : List UInt8) (x y z : Int32) (sz : ℕ)
    (allocated : Bool) : Option TileRead :=
  if !allocated then some (allocationFailure [])
  else
    match cache (memcachedXyzoToStoragekey xmlconfig options x y z) with
    | none => some ⟨-1, [], none, none⟩
    | some value =>
        if value.length < headerLen then none
        else
          match checkHeader ((value.drop StatInfo.bytesSize).take MetaTile.headerSize)
              (MetaTile.xyzToMetaOffset x y) sz with
          | .error e => some (e.tileRead [])
          | .ok entry =>
              let tileSize := toSize entry.size
              let offset := fileOffset entry.offset
              if tileSize ≠ 0 ∧ value.length < offset + tileSize then none
              else some ⟨tileSize, (value.drop offset).take tileSize, some entry.compressed, none⟩

/-- What `memcached_metatile_write` returns, and the values after it.  No memory can be allocated
when the length of the value is not an `int`, since it is negative then. -/
def memcachedMetatileWrite (cache : Cache) (xmlconfig _options : List UInt8) (x y z : Int32)
    (buf : List UInt8) (sz : Int32) (o : WriteOutcome) : ℤ × Cache :=
  if !o.allocated || decide (2 ^ 31 ≤ sz.toInt + StatInfo.bytesSize) then (-2, cache)
  else if !o.accepted then (-1, cache)
  else
    (sz.toInt, Function.update cache (storageKey xmlconfig [] x.toInt y.toInt z.toInt)
      (some (writtenValue buf sz o)))

/-- A write fails and changes nothing, or stores its value and returns its length. -/
theorem memcachedMetatileWrite_cases (cache : Cache) (xmlconfig options : List UInt8)
    (x y z : Int32) (buf : List UInt8) (sz : Int32) (o : WriteOutcome) :
  ((memcachedMetatileWrite cache xmlconfig options x y z buf sz o).1 < 0 ∧
    (memcachedMetatileWrite cache xmlconfig options x y z buf sz o).2 = cache) ∨
  memcachedMetatileWrite cache xmlconfig options x y z buf sz o =
    (sz.toInt, Function.update cache (storageKey xmlconfig [] x.toInt y.toInt z.toInt)
      (some (writtenValue buf sz o)))
  := by
  rw [memcachedMetatileWrite]
  split_ifs
  · left
    exact ⟨Int.negSucc_lt_zero 1, rfl⟩
  · left
    exact ⟨Int.negSucc_lt_zero 0, rfl⟩
  · right
    rfl

/-- A write that returns success has stored its value. -/
theorem memcachedMetatileWrite_of_nonneg {cache : Cache} {xmlconfig options : List UInt8}
    {x y z : Int32} {buf : List UInt8} {sz : Int32} {o : WriteOutcome}
    (h : 0 ≤ (memcachedMetatileWrite cache xmlconfig options x y z buf sz o).1) :
  (memcachedMetatileWrite cache xmlconfig options x y z buf sz o).2 =
    Function.update cache (storageKey xmlconfig [] x.toInt y.toInt z.toInt)
      (some (writtenValue buf sz o))
  := by
  rcases memcachedMetatileWrite_cases cache xmlconfig options x y z buf sz o with ⟨hneg, -⟩ | heq
  · exact absurd h (Int.not_le.mpr hneg)
  · rw [heq]

/-- What `memcached_metatile_delete` returns, and the values after it. -/
def memcachedMetatileDelete (cache : Cache) (xmlconfig : List UInt8) (x y z : Int32) :
    ℤ × Cache :=
  let key := memcachedXyzToStoragekey xmlconfig x y z
  if (cache key).isNone then (-1, cache) else (0, Function.update cache key none)

/-- The value that `memcached_metatile_expire` makes of the one that it has got.  There is none
when the field `expired` is behind its end. -/
def expiredValue (value : List UInt8) : Option (List UInt8) :=
  if value.length < StatInfo.expiredOffset + 4 then none else some (StatInfo.setExpired value)

/-- `memcached_replace`: the value of a key is replaced if there is one. -/
def memcachedReplace (cache : Cache) (key value : List UInt8) : ℤ × Cache :=
  if (cache key).isNone then (-1, cache) else (0, Function.update cache key (some value))

/-- What `memcached_metatile_expire` returns, and the values after it. -/
def memcachedMetatileExpire (cache : Cache) (xmlconfig : List UInt8) (x y z : Int32) :
    Option (ℤ × Cache) :=
  let key := memcachedXyzToStoragekey xmlconfig x y z
  match cache key with
  | none => some (-1, cache)
  | some value => (expiredValue value).map (memcachedReplace cache key)

/-- A value that is long enough is marked as expired. -/
theorem expiredValue_of_le {value : List UInt8} (h : StatInfo.expiredOffset + 4 ≤ value.length) :
  expiredValue value = some (StatInfo.setExpired value)
  := by
  rw [expiredValue, if_neg (by omega)]

theorem memcachedReplace_of_some {cache : Cache} {key value value' : List UInt8}
    (h : cache key = some value) :
  memcachedReplace cache key value' = (0, Function.update cache key (some value'))
  := by
  rw [memcachedReplace, h]
  rfl

/-! ### The store as a map -/

/-- What a metatile is written under: a map, options, and the coordinates of a metatile. -/
structure MetaKey where
  xmlconfig : List UInt8
  options : List UInt8
  x : Int32
  y : Int32
  z : Int32
  deriving DecidableEq

/-- The values of the server, and the metatiles that have been written last and not been deleted
since. -/
structure State where
  cache : Cache
  written : MetaKey → Option MetaTile

/-- The calls that change the store. -/
inductive Action where
  | write (t : MetaTile) (o : WriteOutcome)
  | expire (xmlconfig : List UInt8) (x y z : Int32)
  | delete (xmlconfig : List UInt8) (x y z : Int32)

namespace State

/-- The store is empty. -/
def init : State where
  cache := fun _ => none
  written := fun _ => none

/-- The key of a metatile. -/
def keyOf (t : MetaTile) : MetaKey := ⟨t.xmlconfig, t.options, t.x, t.y, t.z⟩

/-- The store after a call. -/
def step (s : State) : Action → Option State
  | .write t o =>
      let r := memcachedMetatileWrite s.cache t.xmlconfig t.options t.x t.y t.z
        t.metatilebuffer (Int32.ofInt t.length) o
      some ⟨r.2, if r.1 < 0 then s.written else Function.update s.written (keyOf t) (some t)⟩
  | .expire xmlconfig x y z =>
      (memcachedMetatileExpire s.cache xmlconfig x y z).map fun r => ⟨r.2, s.written⟩
  | .delete xmlconfig x y z =>
      some ⟨(memcachedMetatileDelete s.cache xmlconfig x y z).2, fun k =>
        if k.xmlconfig = xmlconfig ∧ k.x = origin x ∧ k.y = origin y ∧ k.z = z then none
        else s.written k⟩

end State

/-- The condition on a call: metatiles are written as `metaTile::save` does, at their origin,
without options, and the keys fit into their buffer. -/
def Plain (_ : State) : Action → Prop
  | .write t _ => t.Aligned ∧ t.Small ∧ t.options = [] ∧
      KeyFits t.xmlconfig [] t.x.toInt t.y.toInt t.z.toInt
  | .expire xmlconfig x y z | .delete xmlconfig x y z =>
      KeyFits xmlconfig [] (origin x).toInt (origin y).toInt z.toInt

/-! ### Keys -/

/-- The storage key of a metatile. -/
def MetaKey.storageKey (k : MetaKey) : List UInt8 :=
  ObjectStore.storageKey k.xmlconfig k.options k.x.toInt k.y.toInt k.z.toInt

/-- The key is one of a metatile without options, and fits into its buffer. -/
structure MetaKey.Plain (k : MetaKey) : Prop where
  options : k.options = []
  x : origin k.x = k.x
  y : origin k.y = k.y
  fits : KeyFits k.xmlconfig [] k.x.toInt k.y.toInt k.z.toInt

/-- The key for the metatile of a tile. -/
def tileKey (xmlconfig options : List UInt8) (x y z : Int32) : MetaKey :=
  ⟨xmlconfig, options, origin x, origin y, z⟩

variable {x y z : Int32} {xmlconfig options : List UInt8} {k k' : MetaKey} {s s' : State}
  {t : MetaTile}

theorem origin_of_mod (h : x.toInt % metatile = 0) :
  origin x = x
  := by
  apply Int32.toInt_inj.mp
  rw [origin, Bits.toInt_and_not_seven]
  rw [metatile] at h
  omega

theorem origin_origin :
  origin (origin x) = origin x
  := by
  apply origin_of_mod
  rw [origin, Bits.toInt_and_not_seven, metatile]
  omega

theorem plain_keyOf (ha : t.Aligned) (hoptions : t.options = [])
    (hfits : KeyFits t.xmlconfig [] t.x.toInt t.y.toInt t.z.toInt) :
  (State.keyOf t).Plain
  := ⟨hoptions, origin_of_mod ha.x_mod, origin_of_mod ha.y_mod, hfits⟩

theorem plain_tileKey
    (hfits : KeyFits xmlconfig [] (origin x).toInt (origin y).toInt z.toInt) :
  (tileKey xmlconfig [] x y z).Plain
  := ⟨rfl, origin_origin, origin_origin, hfits⟩

theorem MetaKey.Plain.storageKey_eq (h : k.Plain) :
  k.storageKey = keyText k.xmlconfig [] k.x.toInt k.y.toInt k.z.toInt
  := by
  rw [MetaKey.storageKey, h.options, storageKey_of_fits h.fits]

/-- Metatiles without options have different storage keys. -/
theorem MetaKey.Plain.eq (h : k.Plain) (h' : k'.Plain) (heq : k.storageKey = k'.storageKey) :
  k = k'
  := by
  rw [h.storageKey_eq, h'.storageKey_eq] at heq
  obtain ⟨hxmlconfig, hx, hy, hz⟩ := keyText_nil_inj heq
  obtain ⟨xmlconfig, options, x, y, z⟩ := k
  obtain ⟨xmlconfig', options', x', y', z'⟩ := k'
  obtain rfl : xmlconfig = xmlconfig' := hxmlconfig
  obtain rfl : x = x' := Int32.toInt_inj.mp hx
  obtain rfl : y = y' := Int32.toInt_inj.mp hy
  obtain rfl : z = z' := Int32.toInt_inj.mp hz
  obtain rfl : options = [] := h.options
  obtain rfl : options' = [] := h'.options
  rfl

/-- The length of a metatile fits into an `int`. -/
theorem toInt_ofInt_length (ha : t.Aligned) (hs : t.Small) :
  (Int32.ofInt t.length).toInt = t.metatilebuffer.length
  := by
  have hlt := MetaTile.small_iff.mp hs
  rw [← MetaTile.length_eq_length_metatilebuffer ha hs, MetaTile.length_eq ha hs,
    Int32.ofInt_eq_ofNat]
  apply Int32.toInt_ofNat_of_lt hlt

/-- The metatile and its value are stored. -/
def State.store (s : State) (t : MetaTile) (o : WriteOutcome) : State where
  cache := Function.update s.cache (storageKey t.xmlconfig [] t.x.toInt t.y.toInt t.z.toInt)
    (some (writtenValue t.metatilebuffer (Int32.ofInt t.length) o))
  written := Function.update s.written (State.keyOf t) (some t)

@[simp]
theorem State.store_written_self {o : WriteOutcome} :
  (s.store t o).written (State.keyOf t) = some t
  := Function.update_self _ _ _

theorem State.store_written_of_ne {o : WriteOutcome} (h : k ≠ State.keyOf t) :
  (s.store t o).written k = s.written k
  := Function.update_of_ne h _ _

/-- A write either fails and changes nothing, or stores the metatile. -/
theorem step_write {o : WriteOutcome} (ha : t.Aligned) (hs : t.Small)
    (hstep : s.step (.write t o) = some s') :
  s' = s ∨ s' = s.store t o
  := by
  have hnonneg : ¬ (Int32.ofInt t.length).toInt < 0 := by
    rw [toInt_ofInt_length ha hs]
    omega
  obtain rfl := Option.some.inj hstep
  rcases memcachedMetatileWrite_cases s.cache t.xmlconfig t.options t.x t.y t.z t.metatilebuffer
    (Int32.ofInt t.length) o with ⟨hneg, hcache⟩ | heq
  · left
    rw [hcache, if_pos hneg]
  · right
    rw [heq]
    dsimp only
    rw [if_neg hnonneg]
    rfl

/-- A write that the server accepts stores the metatile. -/
theorem step_write_accepted {o : WriteOutcome} (hallocated : o.allocated = true)
    (haccepted : o.accepted = true) (hnonneg : 0 ≤ (Int32.ofInt t.length).toInt)
    (hlt : (Int32.ofInt t.length).toInt + StatInfo.bytesSize < 2 ^ 31) :
  s.step (.write t o) = some (s.store t o)
  := by
  have hwrite : memcachedMetatileWrite s.cache t.xmlconfig t.options t.x t.y t.z t.metatilebuffer
      (Int32.ofInt t.length) o = ((Int32.ofInt t.length).toInt, (s.store t o).cache) := by
    rw [memcachedMetatileWrite, hallocated, haccepted, if_neg, if_neg (by simp)]
    · rfl
    · simpa using hlt
  rw [State.step, hwrite]
  dsimp only
  rw [if_neg (by omega)]
  rfl

/-! ### What the server keeps -/

/-- The value that the server keeps for a metatile: the metatile behind a structure. -/
def Stored (value : Option (List UInt8)) : Option MetaTile → Prop
  | none => value = none
  | some t => ∃ stat, stat.length = StatInfo.bytesSize ∧ value = some (stat ++ t.metatilebuffer)

/-- The server keeps a metatile that is stored. -/
theorem stored_store {o : WriteOutcome} :
  Stored ((s.store t o).cache (storageKey t.xmlconfig [] t.x.toInt t.y.toInt t.z.toInt)) (some t)
  := by
  use (StatInfo.written (Int32.ofInt t.length) o.time).bytes o.pad, StatInfo.length_bytes
  apply Function.update_self

/-- The server keeps the metatiles that have been written, and nothing else. -/
structure Represents (s : State) : Prop where
  written : ∀ (k : MetaKey) t, s.written k = some t → k.Plain ∧ t.Aligned ∧ t.Small
  value : ∀ k : MetaKey, k.Plain → Stored (s.cache k.storageKey) (s.written k)
  keys : ∀ key, s.cache key ≠ none → ∃ k : MetaKey, k.Plain ∧ key = k.storageKey

theorem represents_init :
  Represents State.init
  := by
  constructor
  case written => simp [State.init]
  case value => exact fun _ _ => rfl
  case keys => simp [State.init]

namespace Represents

/-- The value of one key and the metatile for it change together. -/
theorem update (h : Represents s) (hk : k.Plain) {v : Option (List UInt8)}
    {m : Option MetaTile} (hm : ∀ t ∈ m, t.Aligned ∧ t.Small) (hstored : Stored v m)
    (hcache : s'.cache = Function.update s.cache k.storageKey v)
    (hself : s'.written k = m) (hother : ∀ k', k'.Plain → k' ≠ k → s'.written k' = s.written k')
    (hplain : ∀ k' t, s'.written k' = some t → k' = k ∨ s.written k' = some t) :
  Represents s'
  := by
  constructor
  case written =>
    intro k' t ht
    rcases hplain k' t ht with rfl | hold
    · rw [hself] at ht
      exact ⟨hk, hm t ht⟩
    · apply h.written k' t hold
  case value =>
    intro k' hk'
    rcases eq_or_ne k' k with rfl | hne
    · rw [hcache, Function.update_self, hself]
      apply hstored
    · rw [hcache, Function.update_of_ne (fun heq => hne (hk'.eq hk heq)), hother k' hk' hne]
      apply h.value k' hk'
  case keys =>
    intro key hkey
    rcases eq_or_ne key k.storageKey with rfl | hne
    · exact ⟨k, hk, rfl⟩
    · rw [hcache, Function.update_of_ne hne] at hkey
      apply h.keys key hkey

/-- A metatile is written, or the call fails. -/
theorem write (h : Represents s) {o : WriteOutcome} (ha : t.Aligned) (hs : t.Small)
    (hoptions : t.options = [])
    (hfits : KeyFits t.xmlconfig [] t.x.toInt t.y.toInt t.z.toInt)
    (hstep : s.step (.write t o) = some s') :
  Represents s'
  := by
  have hk := plain_keyOf ha hoptions hfits
  rcases step_write ha hs hstep with rfl | rfl
  · apply h
  · apply h.update hk (v := some (writtenValue t.metatilebuffer (Int32.ofInt t.length) o))
        (m := some t)
    · rintro _ ⟨⟩
      exact ⟨ha, hs⟩
    · use (StatInfo.written (Int32.ofInt t.length) o.time).bytes o.pad, StatInfo.length_bytes
      rfl
    · rw [MetaKey.storageKey, hk.options]
      rfl
    · apply State.store_written_self
    · intro k' _ hne
      apply State.store_written_of_ne hne
    · intro k' t' ht'
      rcases eq_or_ne k' (State.keyOf t) with heq | hne
      · left
        apply heq
      · right
        rw [State.store_written_of_ne hne] at ht'
        apply ht'

/-- A metatile is marked as expired. -/
theorem expire (h : Represents s)
    (hfits : KeyFits xmlconfig [] (origin x).toInt (origin y).toInt z.toInt)
    (hstep : s.step (.expire xmlconfig x y z) = some s') :
  Represents s'
  := by
  have hk := plain_tileKey hfits
  have hstored := h.value _ hk
  obtain ⟨r, hr, rfl⟩ := Option.map_eq_some_iff.mp hstep
  rw [memcachedMetatileExpire] at hr
  split at hr
  · obtain rfl := Option.some.inj hr
    apply h
  · rename_i value hvalue
    obtain ⟨value', hvalue', rfl⟩ := Option.map_eq_some_iff.mp hr
    have hvalue'' : s.cache (tileKey xmlconfig [] x y z).storageKey = some value := hvalue
    cases hwritten : s.written (tileKey xmlconfig [] x y z) with
    | none =>
        rw [hwritten, hvalue''] at hstored
        contradiction
    | some t =>
        rw [hwritten, hvalue''] at hstored
        obtain ⟨stat, hstat, heq⟩ := hstored
        obtain rfl := Option.some.inj heq
        have ⟨happend, hlength⟩ := StatInfo.setExpired_append (m := t.metatilebuffer) hstat
        rw [expiredValue] at hvalue'
        split_ifs at hvalue'
        obtain rfl := Option.some.inj hvalue'
        apply h.update hk (m := some t)
        · rintro _ ⟨⟩
          exact (h.written _ t hwritten).2
        · exact ⟨_, hlength, rfl⟩
        · rw [memcachedReplace, hvalue, if_neg (by simp), happend]
          rfl
        · apply hwritten
        · exact fun _ _ _ => rfl
        · exact fun _ _ ht' => Or.inr ht'

/-- A metatile is deleted. -/
theorem delete (h : Represents s)
    (hfits : KeyFits xmlconfig [] (origin x).toInt (origin y).toInt z.toInt)
    (hstep : s.step (.delete xmlconfig x y z) = some s') :
  Represents s'
  := by
  have hk := plain_tileKey hfits
  obtain rfl := Option.some.inj hstep
  apply h.update hk (m := none)
  · simp
  · rfl
  · dsimp only
    rw [memcachedMetatileDelete]
    split_ifs with hnone
    · symm
      apply Function.update_eq_self_iff.mpr
      rw [Option.isNone_iff_eq_none] at hnone
      exact hnone.symm
    · rfl
  · apply if_pos
    exact ⟨rfl, rfl, rfl, rfl⟩
  · intro k' hk' hne
    apply if_neg
    rintro ⟨hxmlconfig, hx, hy, hz⟩
    apply hne
    obtain ⟨xmlconfig', options', x', y', z'⟩ := k'
    obtain rfl : options' = [] := hk'.options
    simp only at hxmlconfig hx hy hz
    rw [hxmlconfig, hx, hy, hz, tileKey]
  · intro k' t ht
    right
    dsimp only at ht
    split_ifs at ht
    apply ht

/-- What the server keeps for the metatile of a tile. -/
theorem stored (h : Represents s) (hoptions : 47 ∉ options)
    (hfits : KeyFits xmlconfig options (origin x).toInt (origin y).toInt z.toInt) :
  Stored (s.cache (memcachedXyzoToStoragekey xmlconfig options x y z))
    (s.written (tileKey xmlconfig options x y z))
  := by
  by_cases hnil : options = []
  · subst hnil
    apply h.value _ (plain_tileKey hfits)
  · have hwritten : s.written (tileKey xmlconfig options x y z) = none := by
      by_contra hsome
      obtain ⟨t, ht⟩ := Option.ne_none_iff_exists'.mp hsome
      apply hnil (h.written _ t ht).1.options
    rw [hwritten, Stored]
    by_contra hkey
    obtain ⟨k, hk, heq⟩ := h.keys _ hkey
    rw [memcachedXyzoToStoragekey, storageKey_of_fits hfits, hk.storageKey_eq] at heq
    apply keyText_ne hnil hoptions heq

end Represents

/-- Every call that meets the condition keeps what the server keeps. -/
theorem step_represents {a : Action} (h : Represents s) (hplain : Plain s a)
    (hstep : s.step a = some s') :
  Represents s'
  := by
  cases a with
  | write t o =>
      obtain ⟨ha, hs, hoptions, hfits⟩ := hplain
      apply h.write ha hs hoptions hfits hstep
  | expire xmlconfig x y z => apply h.expire hplain hstep
  | delete xmlconfig x y z => apply h.delete hplain hstep

theorem reach_represents (h : Reach State.step Plain State.init s) :
  Represents s
  := by
  apply h.invariant represents_init
  intro s a s' hs hplain hstep
  apply step_represents hs hplain hstep

/-! ### What is read -/

/-- The result of reading a tile when the last metatile is the given one, if any. -/
def readResult (m : Option MetaTile) (x y : Int32) : TileRead :=
  match m with
  | none => ⟨-1, [], none, none⟩
  | some t =>
      let tile := t.tileAt (MetaTile.xyzToMetaOffset x y)
      ⟨tile.length, tile, some 0, none⟩

/-- Reading a tile of a metatile that the server keeps. -/
theorem tileRead_of_stored {cache : Cache} {m : Option MetaTile} {sz : ℕ}
    (hm : ∀ t ∈ m, t.Aligned ∧ t.Small)
    (hstored : Stored (cache (memcachedXyzoToStoragekey xmlconfig options x y z)) m)
    (hsz : ∀ t ∈ m, (t.tileAt (MetaTile.xyzToMetaOffset x y)).length ≤ sz) :
  memcachedTileRead cache xmlconfig options x y z sz true = some (readResult m x y)
  := by
  cases m with
  | none =>
      rw [Stored] at hstored
      rw [memcachedTileRead, hstored]
      rfl
  | some t =>
      obtain ⟨ha, hs⟩ := hm t rfl
      obtain ⟨stat, hstat, hvalue⟩ := hstored
      have hi := xyzToMetaOffset_lt x y
      have hlong := headerLen_le_length ha hs hstat
      have hend := tile_end_le ha hs hi hstat
      obtain ⟨-, hsize⟩ := MetaTile.toInt_entryAt hs hi
      rw [memcachedTileRead, hvalue, if_neg (by simp)]
      dsimp only
      rw [if_neg (by omega), take_drop_value ha hs hstat, checkHeader_metatile ha hs hi (hsz t rfl)]
      dsimp only
      rw [if_neg (by omega), tile_of_value ha hs hi hstat, StoreFile.toSize_of_nonneg hsize]
      rfl

/-- A metatile without options is not read for any options. -/
theorem step_write_read {o : WriteOutcome} {sz : ℕ} {allocated : Bool}
    (hplain : Plain s (.write t o)) (hstep : s.step (.write t o) = some s')
    (hne : options ≠ t.options) (hoptions : 47 ∉ options)
    (hfits : KeyFits xmlconfig options (origin x).toInt (origin y).toInt z.toInt) :
  memcachedTileRead s'.cache xmlconfig options x y z sz allocated =
    memcachedTileRead s.cache xmlconfig options x y z sz allocated
  := by
  obtain ⟨ha, hs, hnil, hfits'⟩ := hplain
  have hkey : memcachedXyzoToStoragekey xmlconfig options x y z ≠
      storageKey t.xmlconfig [] t.x.toInt t.y.toInt t.z.toInt := by
    rw [memcachedXyzoToStoragekey, storageKey_of_fits hfits, storageKey_of_fits hfits']
    rw [hnil] at hne
    apply keyText_ne hne hoptions
  have hcache : s'.cache (memcachedXyzoToStoragekey xmlconfig options x y z) =
      s.cache (memcachedXyzoToStoragekey xmlconfig options x y z) := by
    rcases step_write ha hs hstep with rfl | rfl
    · rfl
    · apply Function.update_of_ne hkey
  rw [memcachedTileRead, memcachedTileRead, hcache]

/-- When metatiles are written without options only, a tile is read from the metatile that has
been written last for the map, the options and the coordinates, and writing a metatile does not
change what is read for other options. -/
theorem read_last_written (h : Reach State.step Plain State.init s) (hoptions : 47 ∉ options)
    (hfits : KeyFits xmlconfig options (origin x).toInt (origin y).toInt z.toInt) :
  (∀ sz, (∀ t ∈ s.written (tileKey xmlconfig options x y z),
      (t.tileAt (MetaTile.xyzToMetaOffset x y)).length ≤ sz) →
    memcachedTileRead s.cache xmlconfig options x y z sz true =
      some (readResult (s.written (tileKey xmlconfig options x y z)) x y)) ∧
  ∀ (t : MetaTile) (o : WriteOutcome) (s' : State) (sz : ℕ) (allocated : Bool),
    Plain s (.write t o) → s.step (.write t o) = some s' → options ≠ t.options →
    memcachedTileRead s'.cache xmlconfig options x y z sz allocated =
      memcachedTileRead s.cache xmlconfig options x y z sz allocated
  := by
  have hs := reach_represents h
  constructor
  · intro sz hsz
    apply tileRead_of_stored _ (hs.stored hoptions hfits) hsz
    intro t ht
    apply (hs.written _ t ht).2
  · intro t o s' sz allocated hplain hstep hne
    apply step_write_read hplain hstep hne hoptions hfits

/-- The server accepts what is written. -/
def sampleWrite : WriteOutcome where
  allocated := true
  accepted := true
  time := 7
  pad := List.Vector.replicate 4 0

/-- A tile is read back from a metatile without options, and is missing for other options. -/
theorem read_last_written_sample :
  ∃ s, Reach State.step Plain State.init s ∧
    memcachedTileRead s.cache (Bytes.ofString "default") [] 11 17 5 100 true =
      some ⟨3, Bytes.ofString "PNG", some 0, none⟩ ∧
    memcachedTileRead s.cache (Bytes.ofString "default") (Bytes.ofString "de") 11 17 5 100 true =
      some ⟨-1, [], none, none⟩
  := by
  have hplain : Plain State.init (.write StoreFile.sampleMetaTile sampleWrite) :=
    ⟨StoreFile.aligned_sampleMetaTile, StoreFile.small_sampleMetaTile, rfl, by decide +kernel⟩
  have hreach := Reach.tail _ Reach.refl hplain
    (step_write_accepted rfl rfl (by decide +kernel) (by decide +kernel))
  have hkey : tileKey (Bytes.ofString "default") [] 11 17 5 =
      State.keyOf StoreFile.sampleMetaTile := by decide +kernel
  have hne : tileKey (Bytes.ofString "default") (Bytes.ofString "de") 11 17 5 ≠
      State.keyOf StoreFile.sampleMetaTile := by decide +kernel
  refine ⟨_, hreach, ?_, ?_⟩
  · rw [(read_last_written hreach (by decide) (by decide +kernel)).1 100]
    · rw [hkey, State.store_written_self]
      decide +kernel
    · rw [hkey, State.store_written_self]
      rintro _ ⟨⟩
      decide +kernel
  · rw [(read_last_written hreach (by decide) (by decide +kernel)).1 100]
    · rw [State.store_written_of_ne hne]
      rfl
    · rw [State.store_written_of_ne hne]
      rintro _ ⟨⟩

/-- A metatile with options. -/
def sampleOptions : MetaTile := { StoreFile.sampleMetaTile with options := Bytes.ofString "de" }

/-- A metatile that is written with options is read without them, and is missing for its own
options. -/
theorem options_not_written :
  ∃ s, State.init.step (.write sampleOptions sampleWrite) = some s ∧
    sampleOptions.Aligned ∧ sampleOptions.Small ∧
    s.written (tileKey (Bytes.ofString "default") (Bytes.ofString "de") 11 17 5) =
      some sampleOptions ∧
    memcachedTileRead s.cache (Bytes.ofString "default") (Bytes.ofString "de") 11 17 5 100 true =
      some ⟨-1, [], none, none⟩ ∧
    memcachedTileRead State.init.cache (Bytes.ofString "default") [] 11 17 5 100 true =
      some ⟨-1, [], none, none⟩ ∧
    memcachedTileRead s.cache (Bytes.ofString "default") [] 11 17 5 100 true =
      some ⟨3, Bytes.ofString "PNG", some 0, none⟩
  := by
  have ha : sampleOptions.Aligned := ⟨by decide, by decide⟩
  have hs : sampleOptions.Small := by
    rw [MetaTile.Small]
    decide +kernel
  have hkey : tileKey (Bytes.ofString "default") (Bytes.ofString "de") 11 17 5 =
      State.keyOf sampleOptions := by decide +kernel
  have hstored : Stored ((State.init.store sampleOptions sampleWrite).cache
      (memcachedXyzoToStoragekey (Bytes.ofString "default") [] 11 17 5)) (some sampleOptions) :=
    stored_store
  refine ⟨_, step_write_accepted rfl rfl (by decide +kernel) (by decide +kernel), ha, hs,
    ?_, ?_, ?_, ?_⟩
  · rw [hkey, State.store_written_self]
  · decide +kernel
  · rfl
  · rw [tileRead_of_stored _ hstored]
    · decide +kernel
    · rintro _ ⟨⟩
      decide +kernel
    · rintro _ ⟨⟩
      exact ⟨ha, hs⟩

/-! ### Expiring while a metatile is written

One process expires a metatile while another one writes it.  What is kept for it depends on the
order in which the three messages arrive at the server.
-/

/-- How far a call of `memcached_metatile_expire` is: before its first message, between the two
of them with the value for the second one, or behind them. -/
inductive ExpireCall where
  | start
  | got (value : List UInt8)
  | returned (ret : ℤ)
  deriving DecidableEq

/-- The call is between its messages. -/
def ExpireCall.isGot : ExpireCall → Bool
  | got _ => true
  | _ => false

/-- The arguments of the two calls, and what happens to the one that writes. -/
structure Calls where
  xmlconfig : List UInt8
  options : List UInt8
  x : Int32
  y : Int32
  z : Int32
  buf : List UInt8
  sz : Int32
  outcome : WriteOutcome
  tileX : Int32
  tileY : Int32

/-- Both calls are for one metatile. -/
structure Calls.SameMetatile (c : Calls) : Prop where
  x : origin c.tileX = c.x
  y : origin c.tileY = c.y

/-- The key for which the metatile is expired. -/
def Calls.key (c : Calls) : List UInt8 :=
  memcachedXyzToStoragekey c.xmlconfig c.tileX c.tileY c.z

/-- The call that writes. -/
def Calls.write (c : Calls) (cache : Cache) : ℤ × Cache :=
  memcachedMetatileWrite cache c.xmlconfig c.options c.x c.y c.z c.buf c.sz c.outcome

theorem Calls.SameMetatile.key_eq {c : Calls} (h : c.SameMetatile) :
  c.key = storageKey c.xmlconfig [] c.x.toInt c.y.toInt c.z.toInt
  := by
  rw [Calls.key, memcachedXyzToStoragekey, memcachedXyzoToStoragekey, h.x, h.y]

/-- The values of the server, the two calls, and whether the value has been set between the
messages of the one that expires. -/
structure Race where
  cache : Cache
  expire : ExpireCall
  write : Option ℤ
  overtaken : Bool

/-- The messages to the server. -/
inductive Message where
  | get
  | replace
  | set

namespace Race

/-- Neither call has sent a message. -/
def init (cache : Cache) : Race := ⟨cache, .start, none, false⟩

/-- The write has returned success. -/
def Wrote (r : Race) : Prop := ∃ n, r.write = some n ∧ 0 ≤ n

/-- A message arrives, and its answer is handled. -/
def step (c : Calls) (r : Race) : Message → Option Race
  | .get =>
      match r.expire with
      | .start =>
          match r.cache c.key with
          | none => some { r with expire := .returned (-1) }
          | some value => (expiredValue value).map fun value => { r with expire := .got value }
      | _ => none
  | .replace =>
      match r.expire with
      | .got value =>
          let q := memcachedReplace r.cache c.key value
          some { r with cache := q.2, expire := .returned q.1 }
      | _ => none
  | .set =>
      if r.write.isSome then none
      else
        let q := c.write r.cache
        some { r with cache := q.2, write := some q.1, overtaken := r.expire.isGot }

variable {c : Calls} {cache : Cache} {r r' : Race} {value : List UInt8}

/-- The two messages of the call that expires a value that there is. -/
theorem step_get {value' : List UInt8} (hstart : r.expire = .start)
    (hvalue : r.cache c.key = some value) (hexpired : expiredValue value = some value') :
  r.step c .get = some { r with expire := .got value' }
  := by
  rw [step, hstart]
  dsimp only
  rw [hvalue]
  dsimp only
  rw [hexpired, Option.map_some]

theorem step_replace {value' : List UInt8} (hgot : r.expire = .got value')
    (hvalue : r.cache c.key = some value) :
  r.step c .replace = some { r with
    cache := Function.update r.cache c.key (some value'), expire := .returned 0 }
  := by
  rw [step, hgot]
  dsimp only
  rw [memcachedReplace_of_some hvalue]

/-- The call that expires is the one of the store when no other message comes between. -/
theorem reach_expire {q : ℤ × Cache} (hstart : r.expire = .start)
    (h : memcachedMetatileExpire r.cache c.xmlconfig c.tileX c.tileY c.z = some q) :
  Reach (step c) anyStep r { r with cache := q.2, expire := .returned q.1 }
  := by
  rw [memcachedMetatileExpire] at h
  split at h
  · rename_i hnone
    obtain rfl := Option.some.inj h
    apply Reach.tail .get Reach.refl trivial
    rw [step, hstart]
    dsimp only
    rw [Calls.key, hnone]
  · rename_i value hvalue
    obtain ⟨value', hexpired, rfl⟩ := Option.map_eq_some_iff.mp h
    have hget : Reach (step c) anyStep r { r with expire := .got value' } :=
      Reach.tail .get Reach.refl trivial (step_get hstart hvalue hexpired)
    apply Reach.tail .replace hget trivial
    rfl

/-- The value that is kept: the one from before, marked as expired, if the written one has come
between the messages, and else one with the metatile that has been written. -/
def Kept (c : Calls) (cache : Cache) (overtaken : Bool) (value : List UInt8) : Prop :=
  if overtaken then ∃ old, cache c.key = some old ∧ expiredValue old = some value
  else ∃ stat, stat.length = StatInfo.bytesSize ∧ value = stat ++ c.buf

/-- What holds while the calls go on. -/
structure Inv (c : Calls) (cache : Cache) (r : Race) : Prop where
  waiting : r.write = none → r.expire = .start → r.cache = cache
  fetched : ∀ value, r.write = none → r.expire = .got value → Kept c cache true value
  first : r.Wrote → r.expire = .start → r.overtaken = false ∧
    ∃ value, r.cache c.key = some value ∧ Kept c cache false value
  held : ∀ value, r.Wrote → r.expire = .got value → Kept c cache r.overtaken value
  done : r.Wrote → r.expire = .returned 0 →
    ∃ value, r.cache c.key = some value ∧ Kept c cache r.overtaken value

theorem inv_init :
  Inv c cache (init cache)
  := by
  have hwrote : ¬ (init cache).Wrote := by
    rintro ⟨n, ⟨⟩, -⟩
  constructor
  case waiting => exact fun _ _ => rfl
  case fetched => exact fun _ _ h => nomatch h
  case first => exact fun h => absurd h hwrote
  case held => exact fun _ h => absurd h hwrote
  case done => exact fun h => absurd h hwrote

/-- A written metatile stays in a value when that is marked as expired. -/
theorem Kept.expired {value' : List UInt8} (h : Kept c cache false value)
    (hvalue : expiredValue value = some value') :
  Kept c cache false value'
  := by
  obtain ⟨stat, hstat, rfl⟩ := h
  rw [expiredValue] at hvalue
  split_ifs at hvalue
  obtain rfl := Option.some.inj hvalue
  have ⟨happend, hlength⟩ := StatInfo.setExpired_append (m := c.buf) hstat
  exact ⟨_, hlength, happend⟩

/-- The first message of the call that expires. -/
theorem inv_get (h : Inv c cache r) (hstep : r.step c .get = some r') :
  Inv c cache r'
  := by
  rw [step] at hstep
  split at hstep
  · rename_i hstart
    split at hstep
    · obtain rfl := Option.some.inj hstep
      constructor
      all_goals simp
    · rename_i value hvalue
      obtain ⟨value', hvalue', rfl⟩ := Option.map_eq_some_iff.mp hstep
      constructor
      case waiting => exact fun _ h => nomatch h
      case fetched =>
        rintro _ hwrite ⟨⟩
        rw [h.waiting hwrite hstart] at hvalue
        exact ⟨value, hvalue, hvalue'⟩
      case first => exact fun _ h => nomatch h
      case held =>
        rintro _ hwrote ⟨⟩
        obtain ⟨hovertaken, value'', hvalue'', hkept⟩ := h.first hwrote hstart
        rw [hvalue] at hvalue''
        obtain rfl := Option.some.inj hvalue''
        dsimp only
        rw [hovertaken]
        apply hkept.expired hvalue'
      case done => exact fun _ h => nomatch h
  · contradiction

/-- The second message of the call that expires. -/
theorem inv_replace (h : Inv c cache r) (hstep : r.step c .replace = some r') :
  Inv c cache r'
  := by
  rw [step] at hstep
  split at hstep
  · rename_i value hgot
    obtain rfl := Option.some.inj hstep
    constructor
    case waiting => exact fun _ h => nomatch h
    case fetched => exact fun _ _ h => nomatch h
    case first => exact fun _ h => nomatch h
    case held => exact fun _ _ h => nomatch h
    case done =>
      intro hwrote hret
      rw [memcachedReplace] at hret ⊢
      split_ifs at hret ⊢ with hnone
      · simp at hret
      · use value, Function.update_self _ _ _
        apply h.held value hwrote hgot
  · contradiction

/-- A successful write leaves the metatile that it has written. -/
theorem stored_write (hc : c.SameMetatile) (h : 0 ≤ (c.write cache).1) :
  ∃ stat, stat.length = StatInfo.bytesSize ∧
    (c.write cache).2 c.key = some (stat ++ c.buf)
  := by
  rw [Calls.write, memcachedMetatileWrite_of_nonneg h, ← hc.key_eq, Function.update_self]
  exact ⟨_, StatInfo.length_bytes, rfl⟩

/-- The write may come between the messages of the call that expires, and both succeed. -/
theorem reach_overtaken {old : List UInt8} (hc : c.SameMetatile) (hold : cache c.key = some old)
    (hlength : StatInfo.expiredOffset + 4 ≤ old.length) (hwrite : 0 ≤ (c.write cache).1) :
  ∃ r, Reach (step c) anyStep (init cache) r ∧ r.expire = .returned 0 ∧ r.Wrote ∧
    r.cache c.key = some (StatInfo.setExpired old)
  := by
  obtain ⟨stat, -, hvalue⟩ := stored_write hc hwrite
  have hget : Reach (step c) anyStep (init cache) _ :=
    Reach.tail .get Reach.refl trivial (step_get rfl hold (expiredValue_of_le hlength))
  have hset := Reach.tail .set hget trivial rfl
  refine ⟨_, Reach.tail .replace hset trivial (step_replace rfl hvalue), rfl, ⟨_, rfl, hwrite⟩, ?_⟩
  apply Function.update_self

/-- The message of the call that writes. -/
theorem inv_set (hc : c.SameMetatile) (h : Inv c cache r) (hstep : r.step c .set = some r') :
  Inv c cache r'
  := by
  rw [step] at hstep
  split_ifs at hstep with hwrite
  rw [Option.not_isSome_iff_eq_none] at hwrite
  obtain rfl := Option.some.inj hstep
  constructor
  case waiting => exact fun h => nomatch h
  case fetched => exact fun _ h => nomatch h
  case first =>
    intro hwrote hstart
    obtain ⟨_, ⟨⟩, hnonneg⟩ := hwrote
    obtain ⟨stat, hstat, hvalue⟩ := stored_write hc hnonneg
    exact ⟨congrArg ExpireCall.isGot hstart, _, hvalue, stat, hstat, rfl⟩
  case held =>
    intro value hwrote hgot
    have hovertaken : r.expire.isGot = true := congrArg ExpireCall.isGot hgot
    dsimp only
    rw [hovertaken]
    apply h.fetched value hwrite hgot
  case done =>
    intro hwrote hret
    have hovertaken : r.expire.isGot = false := congrArg ExpireCall.isGot hret
    obtain ⟨_, ⟨⟩, hnonneg⟩ := hwrote
    obtain ⟨stat, hstat, hvalue⟩ := stored_write hc hnonneg
    dsimp only
    rw [hovertaken]
    exact ⟨_, hvalue, stat, hstat, rfl⟩

theorem reach_inv (hc : c.SameMetatile) (h : Reach (step c) anyStep (init cache) r) :
  Inv c cache r
  := by
  apply h.invariant inv_init
  intro r m r' hr _ hstep
  cases m with
  | get => apply inv_get hr hstep
  | replace => apply inv_replace hr hstep
  | set => apply inv_set hc hr hstep

end Race

/-- When both calls have returned success, the metatile that has been written is kept, unless it
has been set between the messages of the call that expires.  Then the metatile from before is
kept, and is marked as expired. -/
theorem expire_and_write {c : Calls} {cache : Cache} {r : Race} (hc : c.SameMetatile)
    (h : Reach (Race.step c) anyStep (Race.init cache) r) (hexpire : r.expire = .returned 0)
    (hwrite : r.Wrote) :
  ∃ value, r.cache c.key = some value ∧
    (r.overtaken = false → value.drop StatInfo.bytesSize = c.buf) ∧
    (r.overtaken = true → (StatInfo.ofBytes value).expired = 1 ∧
      ∃ old, cache c.key = some old ∧
        value.drop StatInfo.bytesSize = old.drop StatInfo.bytesSize)
  := by
  obtain ⟨value, hvalue, hkept⟩ := (Race.reach_inv hc h).done hwrite hexpire
  use value, hvalue
  constructor
  · intro hovertaken
    rw [hovertaken] at hkept
    obtain ⟨stat, hstat, rfl⟩ := hkept
    rw [List.drop_left' hstat]
  · intro hovertaken
    rw [hovertaken] at hkept
    obtain ⟨old, hold, hexpired⟩ := hkept
    rw [expiredValue] at hexpired
    split_ifs at hexpired with hlength
    obtain rfl := Option.some.inj hexpired
    use StatInfo.expired_setExpired (by omega), old, hold
    apply StatInfo.drop_setExpired (by omega)

/-- A metatile that is rendered again, with another tile. -/
def sampleRender : MetaTile where
  xmlconfig := Bytes.ofString "default"
  options := []
  x := 8
  y := 16
  z := 5
  tile ox oy := if ox.1 = 3 ∧ oy.1 = 1 then Bytes.ofString "GIF" else []

/-- The tile of the new metatile is another one. -/
theorem metatilebuffer_ne :
  StoreFile.sampleMetaTile.metatilebuffer ≠ sampleRender.metatilebuffer
  := by
  intro h
  have hs : sampleRender.Small := by
    rw [MetaTile.Small]
    decide +kernel
  have hi : 25 < metatile * metatile := by decide
  have hold := StoreFile.drop_metatilebuffer StoreFile.aligned_sampleMetaTile
    StoreFile.small_sampleMetaTile hi
  have hnew := StoreFile.drop_metatilebuffer ⟨by decide, by decide⟩ hs hi
  have hstart : StoreFile.sampleMetaTile.start 25 = sampleRender.start 25 ∧
      (StoreFile.sampleMetaTile.tileAt 25).length = (sampleRender.tileAt 25).length := by
    decide +kernel
  rw [h, hstart.1, hstart.2, hnew] at hold
  revert hold
  decide +kernel

/-- The metatile is written while one of its tiles is expired. -/
def sampleCalls : Calls where
  xmlconfig := Bytes.ofString "default"
  options := []
  x := 8
  y := 16
  z := 5
  buf := sampleRender.metatilebuffer
  sz := 535
  outcome := sampleWrite
  tileX := 11
  tileY := 17

/-- The values of the server before. -/
def sampleCache : Cache := (State.init.store StoreFile.sampleMetaTile sampleWrite).cache

/-- The written metatile is kept when it is set before the first message. -/
theorem expire_and_write_sample :
  ∃ r value, Reach (Race.step sampleCalls) anyStep (Race.init sampleCache) r ∧
    r.expire = .returned 0 ∧ r.cache sampleCalls.key = some value ∧
    value.drop StatInfo.bytesSize = sampleRender.metatilebuffer
  := by
  have hc : sampleCalls.SameMetatile := ⟨by decide, by decide⟩
  have hwrite : 0 ≤ (sampleCalls.write sampleCache).1 := by decide +kernel
  obtain ⟨stat, hstat, hwritten⟩ := Race.stored_write hc hwrite
  have hlength : StatInfo.expiredOffset + 4 ≤ (stat ++ sampleCalls.buf).length := by
    rw [List.length_append, hstat, StatInfo.expiredOffset, StatInfo.bytesSize]
    omega
  have hset : Reach (Race.step sampleCalls) anyStep (Race.init sampleCache) _ :=
    Reach.tail .set Reach.refl trivial rfl
  have hget :=
    Reach.tail .get hset trivial (Race.step_get rfl hwritten (expiredValue_of_le hlength))
  have hreplace := Reach.tail .replace hget trivial (Race.step_replace rfl hwritten)
  obtain ⟨value, hvalue, hdata, -⟩ := expire_and_write hc hreplace rfl ⟨_, rfl, hwrite⟩
  exact ⟨_, value, hreplace, rfl, hvalue, hdata rfl⟩

/-- The written metatile is lost when it is set between the two messages. -/
theorem render_lost :
  ∃ r, Reach (Race.step sampleCalls) anyStep (Race.init sampleCache) r ∧
    sampleCalls.SameMetatile ∧ r.expire = .returned 0 ∧ r.Wrote ∧
    (r.cache sampleCalls.key).map (List.drop StatInfo.bytesSize) =
      some StoreFile.sampleMetaTile.metatilebuffer ∧
    StoreFile.sampleMetaTile.metatilebuffer ≠ sampleCalls.buf
  := by
  have hc : sampleCalls.SameMetatile := ⟨by decide, by decide⟩
  obtain ⟨stat, hstat, hold⟩ : Stored (sampleCache sampleCalls.key)
      (some StoreFile.sampleMetaTile) := stored_store
  have hlength : StatInfo.expiredOffset + 4 ≤
      (stat ++ StoreFile.sampleMetaTile.metatilebuffer).length := by
    rw [List.length_append, hstat, StatInfo.expiredOffset, StatInfo.bytesSize]
    omega
  obtain ⟨r, hreach, hexpire, hwrote, hvalue⟩ :=
    Race.reach_overtaken hc hold hlength (by decide +kernel)
  refine ⟨r, hreach, hc, hexpire, hwrote, ?_, ?_⟩
  · rw [hvalue, Option.map_some, StatInfo.drop_setExpired hlength, List.drop_left' hstat]
  · apply metatilebuffer_ne

end StoreMemcached
