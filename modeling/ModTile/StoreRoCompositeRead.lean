import ModTile.ByteStream
import ModTile.Bytes.Bits
import ModTile.StoreRoComposite

/-!
# Reading a composite tile

`ro_composite_tile_read` of `store_ro_composite.c`.  One buffer is used for the tile of the primary
store, then for that of the secondary store and then for the composite tile.  The images are
decoded and encoded by cairo, which calls back for the bytes.  What cairo does with the bytes is
given by a `Codec`.
-/

namespace StoreRoComposite

open Bytes (ofString cString)
open ByteStream

/-! ### The callbacks -/

/-- `png_stream_to_byte_array_closure_t` -/
structure Closure where
  data : List UInt8
  maxSize : UInt32
  pos : UInt32

/-- The closure for a buffer: its size is reduced to 32 bits. -/
def Closure.ofBuffer (buf : List UInt8) : Closure :=
  { data := buf, maxSize := UInt32.ofNat buf.length, pos := 0 }

/-- The chunk is copied to the position, after a comparison in 32 bits. -/
def writePngStreamToByteArray (closure : Closure) (chunk : Chunk UInt8) : Reply Closure :=
  if closure.maxSize < closure.pos + chunk.length then .error
  else if closure.data.length < closure.pos.toNat + chunk.length.toNat then .undefined
  else .ok { closure with
    data := closure.data.take closure.pos.toNat ++ chunk.bytes ++
      closure.data.drop (closure.pos.toNat + chunk.length.toNat)
    pos := closure.pos + chunk.length }

/-- Bytes are copied from the position, after a comparison in 32 bits. -/
def readPngStreamFromByteArray (closure : Closure) (length : UInt32) :
    Reply (List UInt8 × Closure) :=
  if closure.maxSize < closure.pos + length then .error
  else if closure.data.length < closure.pos.toNat + length.toNat then .undefined
  else .ok ((closure.data.drop closure.pos.toNat).take length.toNat,
    { closure with pos := closure.pos + length })

/-! ### Reading a tile -/

/-- The arguments that are passed on to both stores. -/
structure TileArgs where
  options : List UInt8
  x : Int32
  y : Int32
  z : Int32

/-- What a call of `tile_read` writes to. -/
structure Buffers where
  buf : List UInt8
  compressed : Int32
  logMsg : List UInt8

/-- The `tile_read` of a store: it returns at most the size of the buffer. -/
structure Backend where
  tileRead : (xmlconfig : List UInt8) → TileArgs → Buffers → Int32 × Buffers
  length_buf : ∀ {xmlconfig args out},
    (tileRead xmlconfig args out).2.buf.length = out.buf.length
  ret_le : ∀ {xmlconfig args out}, (tileRead xmlconfig args out).1.toInt ≤ out.buf.length

/-- What the encoder does for an image: the chunks of the complete file, and whether it comes to
the end of them by itself. -/
structure Encoding where
  chunks : List (Chunk UInt8)
  complete : Bool

/-- The bytes of the complete file. -/
def Encoding.bytes (encoding : Encoding) : List UInt8 := encoding.chunks.flatMap Chunk.bytes

/-- What cairo does: the decoders of the two images, the drawing of one over the other, which fails
if there is no new image, and the encoder. -/
structure Codec (ι : Type*) where
  decodePrimary : Reader UInt8 ι
  decodeSecondary : Reader UInt8 ι
  compose : (renderSize : ℕ) → ι → ι → Option ι
  encode : ι → Encoding

/-- How the reading of an image ends without one. -/
inductive ReadStop where
  | failed (out : Buffers)
  | undefined

/-- The image of one of the stores.  Which one it is appears in the messages. -/
def readImage {ι : Type*} (store : Backend) (xmlconfig : XmlconfigArray) (decode : Reader UInt8 ι)
    (which : String) (args : TileArgs) (out : Buffers) : Except ReadStop (ι × Buffers) :=
  let (ret, out) := store.tileRead (cString xmlconfig.toList) args out
  if ret < 0 then
    .error (.failed { out with
      logMsg := ofString ("ro_composite_tile_read: Failed to read tile data of " ++ which ++
        " backend\n") })
  else
    match decode.run readPngStreamFromByteArray (Closure.ofBuffer out.buf) with
    | .undefined => .error .undefined
    | .error => .error (.failed { out with
        logMsg := ofString ("ro_composite_tile_read: Failed to decode png data from " ++ which ++
          " backend\n") })
    | .ok (image, _) => .ok (image, out)

/-- The composite tile.  The status of the encoder is not looked at.  There is no result if a
callback leaves the buffer. -/
def roCompositeTileRead {ι : Type*} (codec : Codec ι) (ctx : Ctx Backend) (args : TileArgs)
    (out : Buffers) : Option (Int32 × Buffers) :=
  match readImage ctx.storePrimary ctx.xmlconfigPrimary codec.decodePrimary "primary" args out with
  | .error .undefined => none
  | .error (.failed out) => some (-1, out)
  | .ok (imageA, out) =>
      match readImage ctx.storeSecondary ctx.xmlconfigSecondary codec.decodeSecondary "secondary"
          args out with
      | .error .undefined => none
      | .error (.failed out) => some (-1, out)
      | .ok (imageB, out) =>
          match codec.compose ctx.renderSize imageA imageB with
          | none => some (-1, { out with
              logMsg := ofString "ro_composite_tile_read: Failed to create output png\n" })
          | some imageC =>
              (writeAll writePngStreamToByteArray (codec.encode imageC).chunks
                (Closure.ofBuffer out.buf)).map fun closure =>
                  (closure.pos.toInt32, { out with buf := closure.data })

/-! ### What the callbacks do -/

variable {closure closure' : Closure} {l : List UInt8} {chunk : Chunk UInt8}

/-- The bytes are at the position of the closure. -/
structure Closure.Serving (closure : Closure) (l : List UInt8) : Prop where
  pre : l <+: closure.data.drop closure.pos.toNat
  fits : closure.pos.toNat + l.length < UInt32.size
  inside : closure.pos.toNat ≤ closure.data.length

/-- The bytes have been written. -/
structure Closure.Written (maxSize : UInt32) (closure : Closure) (l : List UInt8) : Prop where
  maxSize_eq : closure.maxSize = maxSize
  maxSize_le : maxSize.toNat ≤ closure.data.length
  pre : l <+: closure.data
  length_eq : l.length = closure.pos.toNat

theorem toNat_add_of_lt {a b : UInt32} (h : a.toNat + b.toNat < UInt32.size) :
  (a + b).toNat = a.toNat + b.toNat
  := by
  rw [UInt32.toNat_add]
  apply Nat.mod_eq_of_lt h

/-- The bytes at the position of the closure are read. -/
theorem serves_readPngStream :
  Serves readPngStreamFromByteArray Closure.Serving
  := by
  intro closure l length hs hlen
  have hfits := hs.fits
  have hadd : (closure.pos + length).toNat = closure.pos.toNat + length.toNat :=
    toNat_add_of_lt (by omega)
  have hle := hs.pre.length_le
  rw [List.length_drop] at hle
  have hinside := hs.inside
  rw [readPngStreamFromByteArray]
  split_ifs with hmax hdata
  · left
    rfl
  · omega
  · right
    use { closure with pos := closure.pos + length }
    constructor
    · rw [List.prefix_iff_eq_take.mp hs.pre, List.take_take, Nat.min_eq_left hlen]
    · constructor
      case pre =>
        obtain ⟨rest, hrest⟩ := hs.pre
        rw [hadd, ← List.drop_drop, ← hrest, List.drop_append_of_le_length hlen]
        apply List.prefix_append
      case fits =>
        rw [hadd, List.length_drop]
        omega
      case inside =>
        rw [hadd]
        apply not_lt.mp hdata

/-- A chunk that there is room for is written. -/
theorem Closure.Written.write {maxSize : UInt32} (h : closure.Written maxSize l)
    (hmax : l.length + chunk.bytes.length ≤ maxSize.toNat) :
  ∃ closure', writePngStreamToByteArray closure chunk = .ok closure' ∧
    closure'.Written maxSize (l ++ chunk.bytes)
  := by
  have hlt := maxSize.toNat_lt_size
  have hlen := h.length_eq
  have hchunk := chunk.toNat_length
  have hle := h.maxSize_le
  have hadd : (closure.pos + chunk.length).toNat = closure.pos.toNat + chunk.length.toNat :=
    toNat_add_of_lt (by omega)
  have hroom : ¬ closure.maxSize < closure.pos + chunk.length := by
    rw [UInt32.lt_iff_toNat_lt, h.maxSize_eq, hadd]
    omega
  have htake : closure.data.take closure.pos.toNat = l := by
    rw [← hlen]
    apply (List.prefix_iff_eq_take.mp h.pre).symm
  rw [writePngStreamToByteArray, if_neg hroom, if_neg (by omega)]
  refine ⟨_, rfl, ?_⟩
  rw [htake]
  constructor
  case maxSize_eq => apply h.maxSize_eq
  case maxSize_le =>
    simp only [List.length_append, List.length_drop]
    omega
  case pre => apply List.prefix_append
  case length_eq =>
    rw [hadd, List.length_append]
    omega

/-- A chunk is taken only within the size. -/
theorem pos_le_of_write (h : writePngStreamToByteArray closure chunk = .ok closure') :
  closure'.maxSize = closure.maxSize ∧ closure'.pos ≤ closure.maxSize
  := by
  rw [writePngStreamToByteArray] at h
  split_ifs at h with hmax
  obtain rfl := Reply.ok.inj h
  exact ⟨rfl, UInt32.not_lt.mp hmax⟩

/-- The returned bytes are those that the decoder is served first. -/
theorem serving_ofBuffer (buf : List UInt8) {n : ℕ} (hn : n < UInt32.size) :
  (Closure.ofBuffer buf).Serving (buf.take n)
  := by
  constructor
  case pre => apply List.take_prefix
  case fits =>
    rw [List.length_take]
    apply lt_of_le_of_lt _ hn
    rw [Closure.ofBuffer, UInt32.toNat_zero, zero_add]
    apply min_le_left
  case inside => apply Nat.zero_le

theorem written_ofBuffer (buf : List UInt8) :
  (Closure.ofBuffer buf).Written (UInt32.ofNat buf.length) []
  := by
  constructor
  case maxSize_eq => rfl
  case maxSize_le =>
    rw [UInt32.toNat_ofNat']
    apply Nat.mod_le
  case pre => apply List.nil_prefix
  case length_eq => rfl

/-! ### Whole tiles -/

variable {ι : Type*} {codec : Codec ι} {ctx : Ctx Backend} {args : TileArgs} {out out' : Buffers}
  {store : Backend} {xmlconfig : XmlconfigArray} {decode : Reader UInt8 ι} {which : String}
  {image imageA imageB imageC : ι} {n : Int32}

/-- What a store does for the name of a map. -/
def Backend.reads (store : Backend) (xmlconfig : XmlconfigArray) (args : TileArgs)
    (out : Buffers) : Int32 × Buffers :=
  store.tileRead (cString xmlconfig.toList) args out

/-- The bytes that a store returns. -/
def Backend.returned (store : Backend) (xmlconfig : XmlconfigArray) (args : TileArgs)
    (out : Buffers) : List UInt8 :=
  (store.reads xmlconfig args out).2.buf.take (store.reads xmlconfig args out).1.toInt.toNat

/-- Each image is decoded from exactly the bytes that its store returned, and the complete file of
the composite image, with `n` bytes, is at the front of the buffer. -/
def Whole (codec : Codec ι) (ctx : Ctx Backend) (args : TileArgs) (out : Buffers) (n : Int32)
    (result : Buffers) : Prop :=
  ∃ imageA imageB imageC,
    codec.decodePrimary.decodes (ctx.storePrimary.returned ctx.xmlconfigPrimary args out) =
      some imageA ∧
    codec.decodeSecondary.decodes (ctx.storeSecondary.returned ctx.xmlconfigSecondary args
      (ctx.storePrimary.reads ctx.xmlconfigPrimary args out).2) = some imageB ∧
    codec.compose ctx.renderSize imageA imageB = some imageC ∧
    (codec.encode imageC).complete ∧
    (codec.encode imageC).bytes <+: result.buf ∧
    ((codec.encode imageC).bytes.length : ℤ) = n.toInt

/-- A decoder stays inside the buffer, and a decoder that gets through has been given at most as
many bytes as the store returned. -/
def Enough (store : Backend) (xmlconfig : XmlconfigArray) (decode : Reader UInt8 ι)
    (args : TileArgs) (out : Buffers) : Prop :=
  0 ≤ (store.reads xmlconfig args out).1 →
    decode.run readPngStreamFromByteArray
      (Closure.ofBuffer (store.reads xmlconfig args out).2.buf) ≠ .undefined ∧
    ∀ {image total}, decode.run readPngStreamFromByteArray
      (Closure.ofBuffer (store.reads xmlconfig args out).2.buf) = .ok (image, total) →
      (total : ℤ) ≤ (store.reads xmlconfig args out).1.toInt

/-- The returned bytes are enough for both decoders, and the buffer for the composite tile, which
the encoder completes. -/
structure Sufficient (codec : Codec ι) (ctx : Ctx Backend) (args : TileArgs) (out : Buffers) :
    Prop where
  primary : Enough ctx.storePrimary ctx.xmlconfigPrimary codec.decodePrimary args out
  secondary : ∀ {imageA out'},
    readImage ctx.storePrimary ctx.xmlconfigPrimary codec.decodePrimary "primary" args out =
      .ok (imageA, out') →
    Enough ctx.storeSecondary ctx.xmlconfigSecondary codec.decodeSecondary args out'
  output : ∀ {imageA outA imageB outB imageC},
    readImage ctx.storePrimary ctx.xmlconfigPrimary codec.decodePrimary "primary" args out =
      .ok (imageA, outA) →
    readImage ctx.storeSecondary ctx.xmlconfigSecondary codec.decodeSecondary "secondary" args
      outA = .ok (imageB, outB) →
    codec.compose ctx.renderSize imageA imageB = some imageC →
    (codec.encode imageC).complete ∧
      (codec.encode imageC).bytes.length ≤ out.buf.length % UInt32.size

/-- What it means to have read an image. -/
theorem readImage_eq_ok (h : readImage store xmlconfig decode which args out = .ok (image, out')) :
  0 ≤ (store.reads xmlconfig args out).1 ∧ out' = (store.reads xmlconfig args out).2 ∧
    ∃ total, decode.run readPngStreamFromByteArray
      (Closure.ofBuffer (store.reads xmlconfig args out).2.buf) = .ok (image, total)
  := by
  rw [readImage] at h
  split at h
  rename_i ret out₁ hread
  split_ifs at h with hret
  have hreads : store.reads xmlconfig args out = (ret, out₁) := hread
  rw [hreads]
  split at h
  case h_1 => cases h
  case h_2 => cases h
  case h_3 image' total hrun =>
    obtain ⟨rfl, rfl⟩ := Prod.mk.inj (Except.ok.inj h)
    exact ⟨Int32.not_lt.mp hret, rfl, total, hrun⟩

theorem length_returned (h : 0 ≤ (store.reads xmlconfig args out).1) :
  ((store.returned xmlconfig args out).length : ℤ) = (store.reads xmlconfig args out).1.toInt
  := by
  have hret : 0 ≤ (store.reads xmlconfig args out).1.toInt := Int32.le_iff_toInt_le.mp h
  have hle : (store.reads xmlconfig args out).1.toInt ≤
      (store.reads xmlconfig args out).2.buf.length := by
    rw [Backend.reads, store.length_buf]
    apply store.ret_le
  rw [Backend.returned, List.length_take]
  omega

/-- An image that has been read is the only one that can be in the returned bytes, and it is there
exactly if these are enough. -/
theorem decodes_returned (h : readImage store xmlconfig decode which args out = .ok (image, out')) :
  ((∃ image', decode.decodes (store.returned xmlconfig args out) = some image') ↔
      Enough store xmlconfig decode args out) ∧
    ∀ {image'}, decode.decodes (store.returned xmlconfig args out) = some image' →
      image' = image
  := by
  obtain ⟨hret, -, total, hrun⟩ := readImage_eq_ok h
  have hlt := (store.reads xmlconfig args out).1.toInt_lt
  have hsize : (store.reads xmlconfig args out).1.toInt.toNat < UInt32.size := by
    change _ < 2 ^ 32
    omega
  have hserving := serving_ofBuffer (store.reads xmlconfig args out).2.buf hsize
  have hdecodes := Reader.decodes_eq serves_readPngStream hserving hrun
  rw [← Backend.returned] at hdecodes
  have hlength := length_returned hret
  rw [hdecodes]
  constructor
  · constructor
    · rintro ⟨image', himage'⟩ -
      rw [hrun]
      use by simp
      intro image'' total' heq
      obtain ⟨rfl, rfl⟩ := Prod.mk.inj (Reply.ok.inj heq)
      split_ifs at himage' with htotal
      omega
    · intro henough
      have htotal := (henough hret).2 hrun
      use image
      rw [if_pos (by omega)]
  · intro image' himage'
    split_ifs at himage'
    apply (Option.some.inj himage').symm

/-- What it means to have returned a length. -/
theorem roCompositeTileRead_eq_some {result : Buffers}
    (h : roCompositeTileRead codec ctx args out = some (n, result)) (hn : 0 ≤ n) :
  ∃ imageA outA imageB outB imageC closure,
    readImage ctx.storePrimary ctx.xmlconfigPrimary codec.decodePrimary "primary" args out =
      .ok (imageA, outA) ∧
    readImage ctx.storeSecondary ctx.xmlconfigSecondary codec.decodeSecondary "secondary" args
      outA = .ok (imageB, outB) ∧
    codec.compose ctx.renderSize imageA imageB = some imageC ∧
    writeAll writePngStreamToByteArray (codec.encode imageC).chunks (Closure.ofBuffer outB.buf) =
      some closure ∧
    n = closure.pos.toInt32 ∧ result.buf = closure.data
  := by
  have hfail : ∀ {r : Buffers}, some ((-1 : Int32), r) ≠ some (n, result) := by
    intro r heq
    obtain ⟨rfl, -⟩ := Prod.mk.inj (Option.some.inj heq)
    apply absurd hn (by decide)
  rw [roCompositeTileRead] at h
  split at h
  case h_1 => cases h
  case h_2 => apply absurd h hfail
  case h_3 imageA outA hA =>
    split at h
    case h_1 => cases h
    case h_2 => apply absurd h hfail
    case h_3 imageB outB hB =>
      split at h
      case h_1 => apply absurd h hfail
      case h_2 imageC hC =>
        obtain ⟨closure, hwrite, heq⟩ := Option.map_eq_some_iff.mp h
        obtain ⟨rfl, rfl⟩ := Prod.mk.inj heq
        exact ⟨imageA, outA, imageB, outB, imageC, closure, hA, hB, hC, hwrite, rfl, rfl⟩

/-- The position of a closure after writing is within the size. -/
theorem pos_le_of_writeAll {buf : List UInt8} {chunks : List (Chunk UInt8)}
    (h : writeAll writePngStreamToByteArray chunks (Closure.ofBuffer buf) = some closure) :
  closure.pos.toNat ≤ buf.length % UInt32.size
  := by
  have hinvariant := writeAll_invariant
    (fun c : Closure => c.maxSize = UInt32.ofNat buf.length ∧ c.pos ≤ c.maxSize)
    (fun {s s'} chunk hs hwrite => by
      obtain ⟨hmax, hpos⟩ := pos_le_of_write hwrite
      rw [hmax]
      exact ⟨hs.1, hpos⟩)
    ⟨rfl, UInt32.zero_le⟩ h
  have hle := UInt32.le_iff_toNat_le.mp hinvariant.2
  rw [hinvariant.1, UInt32.toNat_ofNat'] at hle
  apply hle

/-- A complete file for which there is room is written. -/
theorem exists_writeAll_encoding {buf : List UInt8} {encoding : Encoding}
    (h : encoding.bytes.length ≤ buf.length % UInt32.size) :
  ∃ closure, writeAll writePngStreamToByteArray encoding.chunks (Closure.ofBuffer buf) =
      some closure ∧
    encoding.bytes <+: closure.data ∧ encoding.bytes.length = closure.pos.toNat
  := by
  have hmax : ([] : List UInt8).length + encoding.bytes.length ≤
      (UInt32.ofNat buf.length).toNat := by
    rwa [UInt32.toNat_ofNat', List.length_nil, zero_add]
  obtain ⟨closure, hwrite, hwritten⟩ :=
    exists_writeAll (fun chunk hs hroom => hs.write hroom) (written_ofBuffer buf) hmax
  exact ⟨closure, hwrite, hwritten.pre, hwritten.length_eq⟩

/-- The length of the buffer stays. -/
theorem length_readImage (h : readImage store xmlconfig decode which args out = .ok (image, out')) :
  out'.buf.length = out.buf.length
  := by
  obtain ⟨-, rfl, -⟩ := readImage_eq_ok h
  apply store.length_buf

theorem readImage_ne_undefined (h : Enough store xmlconfig decode args out) :
  readImage store xmlconfig decode which args out ≠ .error .undefined
  := by
  intro hundefined
  rw [readImage] at hundefined
  split at hundefined
  rename_i ret out₁ hread
  have hreads : store.reads xmlconfig args out = (ret, out₁) := hread
  rw [Enough, hreads] at h
  split_ifs at hundefined with hret
  · cases hundefined
  · split at hundefined
    case h_1 hrun => apply (h (Int32.not_lt.mp hret)).1 hrun
    case h_2 => cases hundefined
    case h_3 => cases hundefined

/-- No access leaves the buffer if the returned bytes and the buffer are enough. -/
theorem roCompositeTileRead_ne_none (h : Sufficient codec ctx args out) :
  roCompositeTileRead codec ctx args out ≠ none
  := by
  intro hnone
  rw [roCompositeTileRead] at hnone
  split at hnone
  case h_1 hA => apply readImage_ne_undefined h.primary hA
  case h_2 => cases hnone
  case h_3 imageA outA hA =>
    split at hnone
    case h_1 hB => apply readImage_ne_undefined (h.secondary hA) hB
    case h_2 => cases hnone
    case h_3 imageB outB hB =>
      split at hnone
      case h_1 => cases hnone
      case h_2 imageC hC =>
        have hroom := (h.output hA hB hC).2
        rw [← length_readImage hA, ← length_readImage hB] at hroom
        obtain ⟨closure, hwrite, -⟩ := exists_writeAll_encoding hroom
        rw [hwrite] at hnone
        cases hnone

/-- The length that is returned is the position of the closure. -/
theorem toInt_toInt32 {pos : UInt32} (h : 0 ≤ pos.toInt32) :
  pos.toInt32.toInt = pos.toNat
  := by
  have hpos : 0 ≤ pos.toInt32.toInt := Int32.le_iff_toInt_le.mp h
  apply (Bits.toNat_of_nonneg hpos).symm

/-- For every behaviour of the two stores and of cairo: a length that is returned is that of a
whole tile exactly when the bytes that each store returned were enough for its decoder and the
buffer is enough for the complete output.  In this case no access leaves the buffer. -/
theorem composite_tile_whole_iff (codec : Codec ι) (ctx : Ctx Backend) (args : TileArgs)
    (out : Buffers) :
  (Sufficient codec ctx args out → roCompositeTileRead codec ctx args out ≠ none) ∧
    ∀ n result, roCompositeTileRead codec ctx args out = some (n, result) → 0 ≤ n →
      (Whole codec ctx args out n result ↔ Sufficient codec ctx args out)
  := by
  use roCompositeTileRead_ne_none
  intro n result hread hn
  obtain ⟨imageA, outA, imageB, outB, imageC, closure, hA, hB, hC, hwrite, rfl, hbuf⟩ :=
    roCompositeTileRead_eq_some hread hn
  obtain ⟨henoughA, huniqueA⟩ := decodes_returned hA
  obtain ⟨henoughB, huniqueB⟩ := decodes_returned hB
  have houtA := (readImage_eq_ok hA).2.1
  have hlen : outB.buf.length = out.buf.length :=
    (length_readImage hB).trans (length_readImage hA)
  constructor
  · rintro ⟨imageA', imageB', imageC', hA', hB', hC', hcomplete, -, hlength⟩
    rw [← houtA] at hB'
    obtain rfl := huniqueA hA'
    obtain rfl := huniqueB hB'
    obtain rfl := Option.some.inj (hC.symm.trans hC')
    constructor
    case primary => apply henoughA.mp ⟨_, hA'⟩
    case secondary =>
      intro imageA' outA' hA''
      obtain ⟨rfl, rfl⟩ := Prod.mk.inj (Except.ok.inj (hA.symm.trans hA''))
      apply henoughB.mp ⟨_, hB'⟩
    case output =>
      intro imageA' outA' imageB' outB' imageC' hA'' hB'' hC''
      obtain ⟨rfl, rfl⟩ := Prod.mk.inj (Except.ok.inj (hA.symm.trans hA''))
      obtain ⟨rfl, rfl⟩ := Prod.mk.inj (Except.ok.inj (hB.symm.trans hB''))
      obtain rfl := Option.some.inj (hC.symm.trans hC'')
      have hpos := pos_le_of_writeAll hwrite
      rw [toInt_toInt32 hn] at hlength
      rw [hlen] at hpos
      use hcomplete
      omega
  · intro hsufficient
    obtain ⟨imageA', hA'⟩ := henoughA.mpr hsufficient.primary
    obtain ⟨imageB', hB'⟩ := henoughB.mpr (hsufficient.secondary hA)
    obtain rfl := huniqueA hA'
    obtain rfl := huniqueB hB'
    obtain ⟨hcomplete, hroom⟩ := hsufficient.output hA hB hC
    rw [← hlen] at hroom
    obtain ⟨closure', hwrite', hpre, hlength⟩ := exists_writeAll_encoding hroom
    obtain rfl := Option.some.inj (hwrite.symm.trans hwrite')
    rw [houtA] at hB'
    use imageA', imageB', imageC, hA', hB', hC, hcomplete
    rw [hbuf, toInt_toInt32 hn, hlength]
    exact ⟨hpre, rfl⟩

/-! ### Samples -/

/-- A tile is put at the front of the buffer, if there is room for it. -/
def readTile (tile : List UInt8) (out : Buffers) : Int32 × Buffers :=
  if tile.length ≤ out.buf.length ∧ tile.length < 2 ^ 31 then
    (Int32.ofNat tile.length, { out with buf := tile ++ out.buf.drop tile.length })
  else (-1, out)

theorem length_readTile (tile : List UInt8) (out : Buffers) :
  (readTile tile out).2.buf.length = out.buf.length
  := by
  rw [readTile]
  split_ifs with h
  · rw [List.length_append, List.length_drop]
    apply Nat.add_sub_cancel' h.1
  · rfl

theorem readTile_le (tile : List UInt8) (out : Buffers) :
  (readTile tile out).1.toInt ≤ out.buf.length
  := by
  rw [readTile]
  split_ifs with h
  · rw [Int32.toInt_ofNat_of_lt h.2]
    apply Int.ofNat_le.mpr h.1
  · have hneg : (-1 : Int32).toInt ≤ 0 := by decide
    apply hneg.trans (Int.natCast_nonneg _)

/-- A store that has one tile. -/
def Backend.ofTile (tile : List UInt8) : Backend where
  tileRead _ _ out := readTile tile out
  length_buf := length_readTile tile _
  ret_le := readTile_le tile _

theorem length_take_lt (image : List UInt8) :
  (image.take 8).length < UInt32.size
  := lt_of_le_of_lt (List.length_take_le _ _) (by decide)

/-- Images that are their bytes: the decoders ask for so many bytes at once, and the encoder puts
the first byte again after at most eight bytes. -/
def sampleCodec (primary secondary : UInt32) : Codec (List UInt8) where
  decodePrimary := .read primary fun bytes => .done (some bytes)
  decodeSecondary := .read secondary fun bytes => .done (some bytes)
  compose _ imageA imageB := some (imageA ++ imageB)
  encode image :=
    { chunks := [⟨image.take 8, length_take_lt image⟩,
        ⟨(image.take 1).take 8, length_take_lt (image.take 1)⟩]
      complete := true }

/-- A store with a tile of four bytes and one with a tile of two bytes. -/
def sampleCtx : Ctx Backend :=
  { storePrimary := .ofTile [1, 2, 3, 4]
    xmlconfigPrimary := .replicate _ 0
    storeSecondary := .ofTile [5, 6]
    xmlconfigSecondary := .replicate _ 0
    renderSize := 256 }

def sampleArgs : TileArgs := { options := [], x := 0, y := 0, z := 0 }

/-- A buffer of zero bytes. -/
def sampleOut (sz : ℕ) : Buffers := { buf := List.replicate sz 0, compressed := 0, logMsg := [] }

/-- In a buffer of 16 bytes, the bytes of both stores and the output are enough. -/
theorem composite_tile_whole_sample :
  ∃ result, roCompositeTileRead (sampleCodec 4 2) sampleCtx sampleArgs (sampleOut 16) =
      some (7, result) ∧
    Whole (sampleCodec 4 2) sampleCtx sampleArgs (sampleOut 16) 7 result
  := by
  refine ⟨_, rfl, ?_⟩
  apply ((composite_tile_whole_iff _ _ _ _).2 _ _ rfl (by decide)).mpr
  constructor
  case primary =>
    intro _
    constructor
    · decide
    · intro image total h
      obtain ⟨-, rfl⟩ := Prod.mk.inj (Reply.ok.inj h)
      decide
  case secondary =>
    intro imageA out' h
    obtain ⟨-, rfl⟩ := Prod.mk.inj (Except.ok.inj h)
    intro _
    constructor
    · decide
    · intro image total h
      obtain ⟨-, rfl⟩ := Prod.mk.inj (Reply.ok.inj h)
      decide
  case output =>
    intro imageA outA imageB outB imageC hA hB hC
    obtain ⟨rfl, rfl⟩ := Prod.mk.inj (Except.ok.inj hA)
    obtain ⟨rfl, rfl⟩ := Prod.mk.inj (Except.ok.inj hB)
    obtain rfl := Option.some.inj hC
    decide

/-- If the decoder asks for four of the two bytes of the secondary store, it gets two bytes of the
primary store, and if the output does not fit into the buffer, the length of a part of it is
returned. -/
theorem composite_tile_not_whole :
  (∃ result, roCompositeTileRead (sampleCodec 4 4) sampleCtx sampleArgs (sampleOut 16) =
      some (9, result) ∧ result.buf.take 9 = [1, 2, 3, 4, 5, 6, 3, 4, 1] ∧
      ¬ Whole (sampleCodec 4 4) sampleCtx sampleArgs (sampleOut 16) 9 result) ∧
    ∃ result, roCompositeTileRead (sampleCodec 4 2) sampleCtx sampleArgs (sampleOut 6) =
      some (6, result) ∧ ¬ Whole (sampleCodec 4 2) sampleCtx sampleArgs (sampleOut 6) 6 result
  := by
  constructor
  · refine ⟨_, rfl, rfl, ?_⟩
    rintro ⟨imageA, imageB, imageC, -, hB, -⟩
    cases hB
  · refine ⟨_, rfl, ?_⟩
    rintro ⟨imageA, imageB, imageC, hA, hB, hC, -, -, hlength⟩
    obtain rfl := Option.some.inj hA
    obtain rfl := Option.some.inj hB
    obtain rfl := Option.some.inj hC
    revert hlength
    decide

end StoreRoComposite
