import ModTile.Bytes.Bits
import ModTile.Bytes.CString
import ModTile.Bytes.Decimal
import ModTile.Config

/-!
# Paths of metatiles

The path of a metatile as `store_file_utils.c` builds it, with `DIRECTORY_HASH` defined, and
the way back from a path to a metatile.  Both `renderd` and `mod_tile` find the file of a
metatile by this path.

Strings are given by their bytes before the terminating zero.
-/

namespace StoreFileUtils

/-- The character between the parts of a path. -/
def slash : UInt8 := 47

/-! ### From a tile to a path -/

/-- One byte of the hash: four bits of `x` and four bits of `y`. -/
def hashByte (x y : Int32) : UInt8 :=
  (((x &&& 0x0f) <<< 4) ||| (y &&& 0x0f)).toUInt32.toUInt8

/-- The rounds of the loop that fills the array `hash`. -/
def hashLoop : ℕ → Int32 → Int32 → List UInt8
  | 0, _, _ => []
  | k + 1, x, y => hashByte x y :: hashLoop k (x >>> 4) (y >>> 4)

/-- The array `hash` for the metatile of a tile, whose coordinates are rounded down first. -/
def hash (x y : Int32) : List UInt8 :=
  hashLoop 5 (x &&& ~~~7) (y &&& ~~~7)

/-- The parts of a path for the bytes of the hash, each after a slash. -/
def hashText (hash : List UInt8) : List UInt8 :=
  hash.flatMap fun h => slash :: Bytes.decimal h.toNat

/-- The end of the file name, with the options if there are any. -/
def metaSuffix (options : List UInt8) : List UInt8 :=
  if options = [] then Bytes.ofString ".meta"
  else Bytes.ofString "." ++ options ++ Bytes.ofString ".meta"

/-- The text that `xyzo_to_meta` prints. -/
def metaText (tileDir xmlconfig options : List UInt8) (x y z : Int32) : List UInt8 :=
  tileDir ++ slash :: (xmlconfig ++ slash :: (Bytes.signed z.toInt ++
    (hashText (hash x y).reverse ++ metaSuffix options)))

/-- The path of the metatile in a buffer of `len` bytes, and the place of the tile in the
metatile. -/
def xyzoToMeta (len : ℕ) (tileDir xmlconfig options : List UInt8) (x y z : Int32) :
    List UInt8 × UInt8 :=
  ((metaText tileDir xmlconfig options x y z).take (len - 1),
    ((x &&& 7) * Int32.ofNat metatile + (y &&& 7)).toUInt32.toUInt8)

/-- The path of the metatile without options. -/
def xyzToMeta (len : ℕ) (tileDir xmlconfig : List UInt8) (x y z : Int32) : List UInt8 × UInt8 :=
  xyzoToMeta len tileDir xmlconfig [] x y z

/-! ### From a path to a metatile -/

/-- Validation of tile coordinates: the value is true when they are out of bounds. -/
def checkXyz (x y z : Int32) : Bool :=
  if z.toInt < 0 ∨ z.toInt > maxZoom then true
  else
    let limit : ℤ := 2 ^ z.toInt.toNat - 1
    x.toInt < 0 || x.toInt > limit || y.toInt < 0 || y.toInt > limit

/-- The rest of the path after `tilepath`. -/
def afterTilepath : List UInt8 → List UInt8 → Option (List UInt8)
  | [], path => some path
  | _ :: _, [] => none
  | c :: tilepath, d :: path => if c = d then afterTilepath tilepath path else none

/-- The conversions `/%40[^/]` of `sscanf`: the name, and the rest of the text. -/
def scanXmlconfig : List UInt8 → Option (List UInt8 × List UInt8)
  | c :: s =>
      let name := (s.takeWhile (· ≠ slash)).take 40
      if c = slash ∧ name ≠ [] then some (name, s.drop name.length) else none
  | [] => none

/-- At most `k` conversions `/%d` of `sscanf`: the numbers that are read. -/
def scanNumbers : ℕ → List UInt8 → List Int32
  | 0, _ => []
  | _ + 1, [] => []
  | k + 1, c :: s =>
      if c = slash then
        match Bytes.scanInt s with
        | some (n, rest) => Int32.ofInt n :: scanNumbers k rest
        | none => []
      else []

/-- The loop that collects the coordinates from the bytes of the hash.  There is no result if
a number is not a byte. -/
def unhash : Int32 → Int32 → List Int32 → Option (Int32 × Int32)
  | x, y, [] => some (x, y)
  | x, y, h :: hash =>
      if h.toInt < 0 ∨ h.toInt > 255 then none
      else unhash (x <<< 4 ||| (h &&& 0xf0) >>> 4) (y <<< 4 ||| h &&& 0x0f) hash

/-- What `path_to_xyz` returns and stores: `none` stands for a variable that keeps its value. -/
structure Parsed where
  ret : ℕ
  xmlconfig : Option (List UInt8)
  px : Option Int32
  py : Option Int32
  pz : Option Int32
  deriving DecidableEq

/-- The metatile for a path. -/
def pathToXyz (tilepath path : List UInt8) : Parsed :=
  match afterTilepath tilepath path with
  | none => ⟨1, none, none, none, none⟩
  | some s =>
      match scanXmlconfig s with
      | none => ⟨1, none, none, none, none⟩
      | some (xmlconfig, s) =>
          match scanNumbers 6 s with
          | [] => ⟨1, some xmlconfig, none, none, none⟩
          | z :: hash =>
              if hash.length ≠ 5 then ⟨1, some xmlconfig, none, none, some z⟩
              else
                match unhash 0 0 hash with
                | none => ⟨2, some xmlconfig, none, none, some z⟩
                | some (x, y) => ⟨(checkXyz x y z).toNat, some xmlconfig, some x, some y, some z⟩

variable {tileDir xmlconfig options s : List UInt8} {x y z x' y' z' : Int32} {k : ℕ}

/-! ### The hash -/

/-- A byte of the hash holds the two remainders. -/
theorem toNat_hashByte :
  ((hashByte x y).toNat : ℤ) = 16 * (x.toInt % 16) + y.toInt % 16
  := by
  obtain ⟨m, hm, hx⟩ := Bits.exists_and_mask x (k := 4) (by decide)
  obtain ⟨n, hn, hy⟩ := Bits.exists_and_mask y (k := 4) (by decide)
  have h : ∀ m n : Fin (2 ^ 4),
      ((Int32.ofNat m <<< 4) ||| Int32.ofNat n).toUInt32.toUInt8.toNat = 16 * m.1 + n.1 := by
    decide +kernel
  have hbyte : (hashByte x y).toNat = 16 * m.1 + n.1 := by
    rw [← h, ← hm, ← hn]
    rfl
  omega

/-- The numbers of a byte of the hash, as the path is read. -/
theorem toInt_nibbles (h : UInt8) :
  ((Int32.ofNat h.toNat &&& 0xf0) >>> 4).toInt = h.toNat / 16 ∧
    (Int32.ofNat h.toNat &&& 0x0f).toInt = h.toNat % 16
  := by
  have hall : ∀ n : Fin 256, ((Int32.ofNat n &&& 0xf0) >>> 4).toInt = n.1 / 16 ∧
      (Int32.ofNat n &&& 0x0f).toInt = n.1 % 16 := by
    decide +kernel
  apply hall ⟨h.toNat, h.toNat_lt⟩

/-- The coordinates after the byte `h` of the hash has been read. -/
def push (h : UInt8) (p : Int32 × Int32) : Int32 × Int32 :=
  (p.1 <<< 4 ||| (Int32.ofNat h.toNat &&& 0xf0) >>> 4, p.2 <<< 4 ||| Int32.ofNat h.toNat &&& 0x0f)

/-- The bytes of a hash are accepted. -/
theorem unhash_map (hash : List UInt8) :
  unhash x y (hash.map fun h => Int32.ofNat h.toNat) =
    some (hash.foldl (fun p h => push h p) (x, y))
  := by
  induction hash generalizing x y with
  | nil => rfl
  | cons h hash ih =>
      have hbyte := h.toNat_lt
      have hint : (Int32.ofNat h.toNat).toInt = h.toNat := by
        apply Int32.toInt_ofNat_of_lt
        omega
      rw [List.map_cons, unhash, if_neg (by omega), ih]
      rfl

/-- Reading a byte appends four bits to each coordinate. -/
theorem toInt_push {p : Int32 × Int32} {m n : ℤ} (hm : p.1.toInt = m % 16 ^ k)
    (hn : p.2.toInt = n % 16 ^ k) (hk : k ≤ 6) :
  (push (hashByte x y) p).1.toInt = 16 * (m % 16 ^ k) + x.toInt % 16 ∧
    (push (hashByte x y) p).2.toInt = 16 * (n % 16 ^ k) + y.toInt % 16
  := by
  have hpos : (0 : ℤ) < 16 ^ k := by positivity
  have hpow : (16 : ℤ) ^ k ≤ 16 ^ 6 := pow_le_pow_right₀ (by decide) hk
  obtain ⟨hhigh, hlow⟩ := toInt_nibbles (hashByte x y)
  have hbyte := toNat_hashByte (x := x) (y := y)
  have hm0 := Int.emod_nonneg m hpos.ne'
  have hm1 := Int.emod_lt_of_pos m hpos
  have hn0 := Int.emod_nonneg n hpos.ne'
  have hn1 := Int.emod_lt_of_pos n hpos
  constructor
  · rw [push, Bits.toInt_shiftLeft_four_or, hm, hhigh]
    all_goals omega
  · rw [push, Bits.toInt_shiftLeft_four_or, hn, hlow]
    all_goals omega

/-- Reading the hash from its end gives the low bits of the coordinates back. -/
theorem foldr_push_hashLoop (hk : k ≤ 7) :
  ((hashLoop k x y).foldr push (0, 0)).1.toInt = x.toInt % 16 ^ k ∧
    ((hashLoop k x y).foldr push (0, 0)).2.toInt = y.toInt % 16 ^ k
  := by
  induction k generalizing x y with
  | zero => simp [hashLoop]
  | succ k ih =>
      have hpos : (0 : ℤ) < 16 ^ k := by positivity
      obtain ⟨hx, hy⟩ := ih (x := x >>> 4) (y := y >>> 4) (by omega)
      rw [Bits.toInt_shiftRight_four] at hx hy
      rw [hashLoop, List.foldr_cons, pow_succ', Bits.emod_sixteen_mul _ hpos,
        Bits.emod_sixteen_mul _ hpos]
      apply toInt_push hx hy (by omega)

/-- The hash is a function of the low bits of the coordinates. -/
theorem hashLoop_congr (hx : x.toInt % 16 ^ k = x'.toInt % 16 ^ k)
    (hy : y.toInt % 16 ^ k = y'.toInt % 16 ^ k) :
  hashLoop k x y = hashLoop k x' y'
  := by
  induction k generalizing x y x' y' with
  | zero => rfl
  | succ k ih =>
      have hpos : (0 : ℤ) < 16 ^ k := by positivity
      rw [pow_succ', Bits.emod_sixteen_mul _ hpos, Bits.emod_sixteen_mul _ hpos] at hx hy
      have hbyte : hashByte x y = hashByte x' y' := by
        have h := toNat_hashByte (x := x) (y := y)
        have h' := toNat_hashByte (x := x') (y := y')
        apply UInt8.toNat_inj.mp
        omega
      rw [hashLoop, hashLoop, hbyte]
      congr 1
      apply ih
      · rw [Bits.toInt_shiftRight_four, Bits.toInt_shiftRight_four]
        omega
      · rw [Bits.toInt_shiftRight_four, Bits.toInt_shiftRight_four]
        omega

theorem length_hashLoop :
  (hashLoop k x y).length = k
  := by
  induction k generalizing x y with
  | zero => rfl
  | succ k ih => rw [hashLoop, List.length_cons, ih]

/-- Two tiles have the same hash when the low bits of the metatiles agree. -/
theorem hash_eq_iff :
  hash x y = hash x' y' ↔
    (x.toInt - x.toInt % 8) % 2 ^ 20 = (x'.toInt - x'.toInt % 8) % 2 ^ 20 ∧
      (y.toInt - y.toInt % 8) % 2 ^ 20 = (y'.toInt - y'.toInt % 8) % 2 ^ 20
  := by
  simp only [← Bits.toInt_and_not_seven]
  constructor
  · intro h
    obtain ⟨hx, hy⟩ := foldr_push_hashLoop (x := x &&& ~~~7) (y := y &&& ~~~7) (k := 5) (by decide)
    obtain ⟨hx', hy'⟩ :=
      foldr_push_hashLoop (x := x' &&& ~~~7) (y := y' &&& ~~~7) (k := 5) (by decide)
    rw [hash, hash] at h
    rw [h] at hx hy
    use hx.symm.trans hx', hy.symm.trans hy'
  · rintro ⟨hx, hy⟩
    apply hashLoop_congr hx hy

/-! ### The text -/

theorem endsNumber_metaSuffix :
  Bytes.EndsNumber (metaSuffix options)
  := by
  intro c hc
  rw [metaSuffix] at hc
  split at hc
  · obtain rfl := Option.mem_some.mp hc
    rfl
  · obtain rfl := Option.mem_some.mp hc
    rfl

theorem endsNumber_hashText (hash : List UInt8) (hs : Bytes.EndsNumber s) :
  Bytes.EndsNumber (hashText hash ++ s)
  := by
  cases hash with
  | nil => apply hs
  | cons h hash =>
      intro c hc
      obtain rfl := Option.mem_some.mp hc
      rfl

theorem hashText_cons (h : UInt8) (hash : List UInt8) :
  hashText (h :: hash) ++ s = slash :: (Bytes.decimal h.toNat ++ (hashText hash ++ s))
  := by
  simp [hashText]

/-- The numbers of a hash are read back. -/
theorem scanNumbers_hashText (hash : List UInt8) (hs : Bytes.EndsNumber s) :
  scanNumbers hash.length (hashText hash ++ s) = hash.map fun h => Int32.ofNat h.toNat
  := by
  induction hash with
  | nil => rfl
  | cons h hash ih =>
      rw [hashText_cons, List.length_cons, scanNumbers, if_pos rfl,
        Bytes.scanInt_decimal (endsNumber_hashText hash hs)]
      dsimp only
      rw [ih]
      rfl

/-- A hash and the text after it can be told apart. -/
theorem hashText_append_inj {hash hash' : List UInt8} {s' : List UInt8}
    (hlen : hash.length = hash'.length) (hs : Bytes.EndsNumber s) (hs' : Bytes.EndsNumber s')
    (h : hashText hash ++ s = hashText hash' ++ s') :
  hash = hash' ∧ s = s'
  := by
  induction hash generalizing hash' with
  | nil =>
      obtain rfl := List.eq_nil_of_length_eq_zero hlen.symm
      use rfl, h
  | cons b hash ih =>
      obtain ⟨b', hash', rfl⟩ := List.exists_cons_of_length_eq_add_one hlen.symm
      rw [hashText_cons, hashText_cons] at h
      have hscan := congrArg Bytes.scanInt (List.cons_inj_right _ |>.mp h)
      rw [Bytes.scanInt_decimal (endsNumber_hashText hash hs),
        Bytes.scanInt_decimal (endsNumber_hashText hash' hs')] at hscan
      obtain ⟨hb, hrest⟩ := Prod.mk.inj (Option.some.inj hscan)
      obtain ⟨rfl, rfl⟩ := ih (Nat.succ.inj hlen) hrest
      obtain rfl := UInt8.toNat_inj.mp (Int.ofNat.inj hb)
      use rfl

/-- The end of a file name determines the options. -/
theorem metaSuffix_inj {options' : List UInt8} (h : metaSuffix options = metaSuffix options') :
  options = options'
  := by
  have hlen := congrArg List.length h
  rw [metaSuffix, metaSuffix] at h hlen
  split at h
  · rename_i hnil
    rw [hnil] at hlen ⊢
    split at h
    · rename_i hnil'
      rw [hnil']
    · rename_i hne
      have := List.length_pos_iff.mpr hne
      simp [hne, Bytes.ofString] at hlen
  · rename_i hne
    split at h
    · have := List.length_pos_iff.mpr hne
      rename_i hnil'
      simp [hne, hnil', Bytes.ofString] at hlen
    · apply List.append_cancel_left (List.append_cancel_right h)

/-- The part of a path after the name of the map determines zoom level, hash and options. -/
theorem zoomText_inj {options' : List UInt8}
    (h : Bytes.signed z.toInt ++ (hashText (hash x y).reverse ++ metaSuffix options) =
      Bytes.signed z'.toInt ++ (hashText (hash x' y').reverse ++ metaSuffix options')) :
  z = z' ∧ hash x y = hash x' y' ∧ options = options'
  := by
  have hscan := congrArg Bytes.scanInt h
  rw [Bytes.scanInt_signed (endsNumber_hashText _ endsNumber_metaSuffix),
    Bytes.scanInt_signed (endsNumber_hashText _ endsNumber_metaSuffix)] at hscan
  obtain ⟨hz, hrest⟩ := Prod.mk.inj (Option.some.inj hscan)
  have hlen : (hash x y).reverse.length = (hash x' y').reverse.length := by
    rw [List.length_reverse, List.length_reverse, hash, hash, length_hashLoop, length_hashLoop]
  obtain ⟨hhash, hsuffix⟩ :=
    hashText_append_inj hlen endsNumber_metaSuffix endsNumber_metaSuffix hrest
  use Int32.toInt_inj.mp hz, List.reverse_injective hhash, metaSuffix_inj hsuffix

/-- For one map and the same options, the text is determined by the zoom level and the hash. -/
theorem metaText_eq_iff :
  metaText tileDir xmlconfig options x y z = metaText tileDir xmlconfig options x' y' z' ↔
    z = z' ∧ hash x y = hash x' y'
  := by
  constructor
  · intro h
    rw [metaText, metaText] at h
    have h1 := (List.cons_inj_right _).mp (List.append_cancel_left h)
    have h2 := (List.cons_inj_right _).mp (List.append_cancel_left h1)
    obtain ⟨hz, hhash, -⟩ := zoomText_inj h2
    use hz, hhash
  · rintro ⟨rfl, h⟩
    rw [metaText, metaText, h]

/-! ### The path -/

/-- A name of a map that `path_to_xyz` can read. -/
structure ValidName (xmlconfig : List UInt8) : Prop where
  ne_nil : xmlconfig ≠ []
  length_le : xmlconfig.length ≤ 40
  slash_notMem : slash ∉ xmlconfig

/-- The tile is one of the tiles of a square map. -/
structure ValidTile (x y z : Int32) : Prop where
  zoom_nonneg : 0 ≤ z.toInt
  zoom_le : z.toInt ≤ maxZoom
  x_nonneg : 0 ≤ x.toInt
  x_lt : x.toInt < 2 ^ z.toInt.toNat
  y_nonneg : 0 ≤ y.toInt
  y_lt : y.toInt < 2 ^ z.toInt.toNat

/-- The path is not truncated. -/
def Fits (len : ℕ) (tileDir xmlconfig options : List UInt8) (x y z : Int32) : Prop :=
  (metaText tileDir xmlconfig options x y z).length < len

theorem path_eq_metaText {len : ℕ} (h : Fits len tileDir xmlconfig options x y z) :
  (xyzoToMeta len tileDir xmlconfig options x y z).1 = metaText tileDir xmlconfig options x y z
  := by
  rw [xyzoToMeta, List.take_of_length_le]
  rw [Fits] at h
  omega

theorem length_hashText (hash : List UInt8) :
  (hashText hash).length ≤ 4 * hash.length
  := by
  have hall : ∀ n : Fin 256, (Bytes.decimal n).length ≤ 3 := by
    decide +kernel
  induction hash with
  | nil => rfl
  | cons h hash ih =>
      have hh : (Bytes.decimal h.toNat).length ≤ 3 := hall ⟨h.toNat, h.toNat_lt⟩
      have hcons := congrArg List.length (hashText_cons (s := []) h hash)
      simp only [List.append_nil, List.length_cons, List.length_append] at hcons
      simp only [List.length_cons]
      omega

/-- A path fits when directory, name and options leave room for 30 more characters. -/
theorem fits_of_length {len : ℕ} (hz : 0 ≤ z.toInt) (hz' : z.toInt ≤ maxZoom)
    (h : tileDir.length + xmlconfig.length + options.length + 30 < len) :
  Fits len tileDir xmlconfig options x y z
  := by
  have hall : ∀ n : Fin 21, (Bytes.signed n).length ≤ 2 := by
    decide +kernel
  have hzoom : (Bytes.signed z.toInt).length ≤ 2 := by
    have hn := hall ⟨z.toInt.toNat, by rw [maxZoom] at hz'; omega⟩
    rw [Int.toNat_of_nonneg hz] at hn
    apply hn
  have hhash := length_hashText (hash x y).reverse
  rw [List.length_reverse, hash, length_hashLoop] at hhash
  have hsuffix : (metaSuffix options).length ≤ options.length + 6 := by
    rw [metaSuffix]
    split
    · simp [Bytes.ofString]
    · simp [Bytes.ofString]
  rw [Fits, metaText, hash]
  simp only [List.length_append, List.length_cons]
  omega

/-- The place of a tile is determined by the remainders of its coordinates. -/
theorem toNat_offset {len : ℕ} :
  ((xyzoToMeta len tileDir xmlconfig options x y z).2.toNat : ℤ) =
    x.toInt % metatile * metatile + y.toInt % metatile
  := by
  obtain ⟨m, hm, hx⟩ := Bits.exists_and_mask x (k := 3) (by decide)
  obtain ⟨n, hn, hy⟩ := Bits.exists_and_mask y (k := 3) (by decide)
  have h : ∀ m n : Fin (2 ^ 3),
      (Int32.ofNat m * 8 + Int32.ofNat n).toUInt32.toUInt8.toNat = m.1 * 8 + n.1 := by
    decide +kernel
  have hoffset : (xyzoToMeta len tileDir xmlconfig options x y z).2.toNat = m.1 * 8 + n.1 := by
    rw [← h, ← hm, ← hn]
    rfl
  rw [hoffset, metatile]
  omega

theorem afterTilepath_append :
  afterTilepath tileDir (tileDir ++ s) = some s
  := by
  induction tileDir with
  | nil => rfl
  | cons c tileDir ih => rw [List.cons_append, afterTilepath, if_pos rfl, ih]

theorem scanXmlconfig_append (h : ValidName xmlconfig) :
  scanXmlconfig (slash :: (xmlconfig ++ slash :: s)) = some (xmlconfig, slash :: s)
  := by
  have hname : ((xmlconfig ++ slash :: s).takeWhile (· ≠ slash)).take 40 = xmlconfig := by
    rw [List.takeWhile_append_of_pos, List.takeWhile_cons_of_neg (by simp), List.append_nil,
      List.take_of_length_le h.length_le]
    intro c hc
    simpa using ne_of_mem_of_not_mem hc h.slash_notMem
  rw [scanXmlconfig, hname, if_pos ⟨rfl, h.ne_nil⟩, List.drop_left]

/-- The rest of a path is its end. -/
theorem afterTilepath_suffix {path : List UInt8} (h : afterTilepath tileDir path = some s) :
  s <:+ path
  := by
  induction tileDir generalizing path with
  | nil =>
      obtain rfl := Option.some.inj h
      apply List.suffix_rfl
  | cons c tileDir ih =>
      cases path with
      | nil => cases h
      | cons d path =>
          rw [afterTilepath] at h
          split_ifs at h
          apply (ih h).trans (List.suffix_cons d path)

/-- The name that is read is part of the text and fits into its array. -/
theorem scanXmlconfig_spec {rest : List UInt8} (h : scanXmlconfig s = some (xmlconfig, rest)) :
  xmlconfig ⊆ s ∧ xmlconfig.length ≤ 40
  := by
  cases s with
  | nil => cases h
  | cons c s =>
      rw [scanXmlconfig] at h
      split_ifs at h
      obtain ⟨rfl, -⟩ := Prod.mk.inj (Option.some.inj h)
      constructor
      · apply List.Subset.trans (List.take_subset _ _)
        apply List.Subset.trans (List.takeWhile_subset _)
        apply List.subset_cons_self
      · apply List.length_take_le

/-- Everything is read from a path that is accepted. -/
theorem pathToXyz_of_ret {path : List UInt8} (h : (pathToXyz tileDir path).ret = 0) :
  ∃ xmlconfig x y z, pathToXyz tileDir path = ⟨0, some xmlconfig, some x, some y, some z⟩ ∧
    xmlconfig ⊆ path ∧ xmlconfig.length ≤ 40
  := by
  rw [pathToXyz] at h ⊢
  cases hafter : afterTilepath tileDir path with
  | none => simp only [hafter, one_ne_zero] at h
  | some s =>
      simp only [hafter] at h ⊢
      cases hscan : scanXmlconfig s with
      | none => simp only [hscan, one_ne_zero] at h
      | some r =>
          obtain ⟨xmlconfig, s'⟩ := r
          simp only [hscan] at h ⊢
          obtain ⟨hsubset, hlength⟩ := scanXmlconfig_spec hscan
          cases hnumbers : scanNumbers 6 s' with
          | nil => simp only [hnumbers, one_ne_zero] at h
          | cons z hash =>
              simp only [hnumbers] at h ⊢
              split_ifs at h ⊢
              cases hunhash : unhash 0 0 hash with
              | none => simp only [hunhash, OfNat.ofNat_ne_zero] at h
              | some p =>
                  obtain ⟨x, y⟩ := p
                  simp only [hunhash] at h ⊢
                  use xmlconfig, x, y, z
                  rw [h]
                  use rfl, List.Subset.trans hsubset (afterTilepath_suffix hafter).subset

/-- What is read from the path of a metatile. -/
theorem pathToXyz_metaText (h : ValidName xmlconfig) :
  pathToXyz tileDir (metaText tileDir xmlconfig options x y z) =
    let p := (hash x y).foldr push (0, 0)
    ⟨(checkXyz p.1 p.2 z).toNat, some xmlconfig, some p.1, some p.2, some z⟩
  := by
  have hz : Int32.ofInt z.toInt = z := Int32.ofInt_toInt z
  have hlen : (hash x y).reverse.length = 5 := by
    rw [List.length_reverse, hash, length_hashLoop]
  have hscan : scanNumbers 6 (slash :: (Bytes.signed z.toInt ++
      (hashText (hash x y).reverse ++ metaSuffix options))) =
        z :: (hash x y).reverse.map fun h => Int32.ofNat h.toNat := by
    rw [scanNumbers, if_pos rfl,
      Bytes.scanInt_signed (endsNumber_hashText _ endsNumber_metaSuffix)]
    dsimp only
    rw [hz, ← scanNumbers_hashText _ endsNumber_metaSuffix, hlen]
  rw [pathToXyz, metaText, afterTilepath_append]
  dsimp only
  rw [scanXmlconfig_append h]
  dsimp only
  rw [hscan]
  dsimp only
  rw [List.length_map, hlen, if_neg (by decide), unhash_map, List.foldl_reverse]

theorem ofInt_sub_emod :
  Int32.ofInt (x.toInt - x.toInt % metatile) = x &&& ~~~7
  := by
  rw [metatile, Nat.cast_ofNat, ← Bits.toInt_and_not_seven, Int32.ofInt_toInt]

namespace ValidTile

theorem lt_two_pow (h : ValidTile x y z) :
  x.toInt < 2 ^ 20 ∧ y.toInt < 2 ^ 20
  := by
  have hpow : (2 : ℤ) ^ z.toInt.toNat ≤ 2 ^ 20 := by
    apply pow_le_pow_right₀ (by decide)
    have := h.zoom_le
    rw [maxZoom] at this
    omega
  use h.x_lt.trans_le hpow, h.y_lt.trans_le hpow

/-- The numbers that are read from the path of a valid tile are those of its metatile. -/
theorem foldr_push (h : ValidTile x y z) :
  (hash x y).foldr push (0, 0) = (x &&& ~~~7, y &&& ~~~7)
  := by
  obtain ⟨hx, hy⟩ := h.lt_two_pow
  have hx' := h.x_nonneg
  have hy' := h.y_nonneg
  obtain ⟨hpx, hpy⟩ :=
    foldr_push_hashLoop (x := x &&& ~~~7) (y := y &&& ~~~7) (k := 5) (by decide)
  apply Prod.ext
  · apply Int32.toInt_inj.mp
    rw [hash, hpx, Bits.toInt_and_not_seven]
    omega
  · apply Int32.toInt_inj.mp
    rw [hash, hpy, Bits.toInt_and_not_seven]
    omega

/-- The metatile of a valid tile passes the check of the coordinates. -/
theorem checkXyz_eq_false (h : ValidTile x y z) :
  checkXyz (x &&& ~~~7) (y &&& ~~~7) z = false
  := by
  have hx := h.x_nonneg
  have hx' := h.x_lt
  have hy := h.y_nonneg
  have hy' := h.y_lt
  have hzoom := h.zoom_nonneg
  have hzoom' := h.zoom_le
  rw [checkXyz, if_neg (by omega), Bits.toInt_and_not_seven, Bits.toInt_and_not_seven]
  simp only [Bool.or_eq_false_iff, decide_eq_false_iff_not]
  omega

/-- Valid tiles have the same hash when they are in the same metatile. -/
theorem hash_eq_iff (h : ValidTile x y z) (h' : ValidTile x' y' z') :
  hash x y = hash x' y' ↔
    x.toInt / metatile = x'.toInt / metatile ∧ y.toInt / metatile = y'.toInt / metatile
  := by
  obtain ⟨hx, hy⟩ := h.lt_two_pow
  obtain ⟨hx', hy'⟩ := h'.lt_two_pow
  have hx0 := h.x_nonneg
  have hy0 := h.y_nonneg
  have hx0' := h'.x_nonneg
  have hy0' := h'.y_nonneg
  rw [StoreFileUtils.hash_eq_iff, metatile]
  omega

end ValidTile

/-- The path of a metatile is read back as its map, its zoom level and its first tile, the
offset is the place of the tile in its metatile, and two tiles have the same path exactly
when they are in the same metatile of the same map with the same options.  The directory
of the tiles is arbitrary, so that it may end with a slash. -/
theorem path_codec {len : ℕ} (hname : ValidName xmlconfig) (htile : ValidTile x y z)
    (hfits : Fits len tileDir xmlconfig options x y z) :
  pathToXyz tileDir (xyzoToMeta len tileDir xmlconfig options x y z).1 =
      ⟨0, some xmlconfig, some (Int32.ofInt (x.toInt - x.toInt % metatile)),
        some (Int32.ofInt (y.toInt - y.toInt % metatile)), some z⟩ ∧
    ((xyzoToMeta len tileDir xmlconfig options x y z).2.toNat : ℤ) =
      x.toInt % metatile * metatile + y.toInt % metatile ∧
    ∀ xmlconfig' options' x' y' z', ValidName xmlconfig' → ValidTile x' y' z' →
      Fits len tileDir xmlconfig' options' x' y' z' →
      ((xyzoToMeta len tileDir xmlconfig options x y z).1 =
          (xyzoToMeta len tileDir xmlconfig' options' x' y' z').1 ↔
        xmlconfig = xmlconfig' ∧ options = options' ∧ z = z' ∧
          x.toInt / metatile = x'.toInt / metatile ∧ y.toInt / metatile = y'.toInt / metatile)
  := by
  refine ⟨?_, toNat_offset, ?_⟩
  · rw [path_eq_metaText hfits, pathToXyz_metaText hname, htile.foldr_push, ofInt_sub_emod,
      ofInt_sub_emod]
    dsimp only
    rw [htile.checkXyz_eq_false]
    rfl
  · intro xmlconfig' options' x' y' z' hname' htile' hfits'
    rw [path_eq_metaText hfits, path_eq_metaText hfits', ← htile.hash_eq_iff htile']
    constructor
    · intro h
      have hscan := congrArg (fun s => (afterTilepath tileDir s).bind scanXmlconfig) h
      dsimp only [metaText] at hscan
      rw [afterTilepath_append, afterTilepath_append, Option.bind_some, Option.bind_some,
        scanXmlconfig_append hname, scanXmlconfig_append hname'] at hscan
      obtain ⟨rfl, hrest⟩ := Prod.mk.inj (Option.some.inj hscan)
      obtain ⟨hz, hhash, hoptions⟩ := zoomText_inj ((List.cons_inj_right _).mp hrest)
      use rfl, hoptions, hz, hhash
    · rintro ⟨rfl, rfl, rfl, h⟩
      rw [metaText, metaText, h]

/-- The path of a tile of the map `default`. -/
theorem path_codec_default :
  ValidName (Bytes.ofString "default") ∧ ValidTile 13 6 4 ∧
    Fits pathMax (Bytes.ofString "/var/cache/tiles/") (Bytes.ofString "default") [] 13 6 4 ∧
    pathToXyz (Bytes.ofString "/var/cache/tiles/")
        (xyzoToMeta pathMax (Bytes.ofString "/var/cache/tiles/") (Bytes.ofString "default") []
          13 6 4).1 =
      ⟨0, some (Bytes.ofString "default"), some 8, some 0, some 4⟩
  := by
  have hname : ValidName (Bytes.ofString "default") := ⟨by decide, by decide, by decide⟩
  have htile : ValidTile 13 6 4 :=
    ⟨by decide, by decide, by decide, by decide, by decide, by decide⟩
  have hfits : Fits pathMax (Bytes.ofString "/var/cache/tiles/") (Bytes.ofString "default") []
      13 6 4 := by
    rw [Fits]
    decide +kernel
  use hname, htile, hfits
  apply (path_codec hname htile hfits).1

end StoreFileUtils
