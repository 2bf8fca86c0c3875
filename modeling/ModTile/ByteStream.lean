import Mathlib.Data.List.Basic

/-!
# Reading and writing through callbacks

A decoder gets its bytes from a callback that it asks for so many bytes at a time, and an encoder
gives its bytes to a callback in chunks.  Both stop when the callback reports an error.  Lengths
have 32 bits, and a callback may also leave the memory that it has been given.

A callback *serves* a list of bytes if it gives these bytes in order or reports an error, for as
long as they last.  What a decoder makes of such a callback is what it makes of the bytes
if it has not been given more bytes than there are, and otherwise these bytes are not enough for
it.
-/

namespace ByteStream

/-- What a callback comes to: a value, an error, or an access outside of its memory. -/
inductive Reply (β : Type*) where
  | ok (value : β)
  | error
  | undefined
  deriving DecidableEq

/-! ### Decoders -/

/-- A decoder: it has a result, which may be a failure, or asks for bytes and goes on with what it
is given. -/
inductive Reader (α ι : Type*) where
  | done (result : Option ι)
  | read (length : UInt32) (next : List α → Reader α ι)

variable {α σ ι : Type*} {callback : σ → UInt32 → Reply (List α × σ)}
  {serving : σ → List α → Prop} {s : σ} {l : List α} {image : ι} {total : ℕ}

/-- The result of a decoder whose bytes come from a callback, with the number of bytes that it has
been given. -/
def Reader.run (callback : σ → UInt32 → Reply (List α × σ)) : Reader α ι → σ → Reply (ι × ℕ)
  | .done none, _ => .error
  | .done (some image), _ => .ok (image, 0)
  | .read length next, s =>
      match callback s length with
      | .error => .error
      | .undefined => .undefined
      | .ok (bytes, s') =>
          match (next bytes).run callback s' with
          | .error => .error
          | .undefined => .undefined
          | .ok (image, total) => .ok (image, length.toNat + total)

/-- The result of a decoder for a list of bytes: it fails if it asks for more than there are. -/
def Reader.decodes : Reader α ι → List α → Option ι
  | .done result, _ => result
  | .read length next, l =>
      if length.toNat ≤ l.length then (next (l.take length.toNat)).decodes (l.drop length.toNat)
      else none

/-- Whenever `serving s l`, the callback gives bytes from the front of `l` or reports an error, as
long as it is asked for at most as many as there are. -/
def Serves (callback : σ → UInt32 → Reply (List α × σ)) (serving : σ → List α → Prop) : Prop :=
  ∀ {s l} (length : UInt32), serving s l → length.toNat ≤ l.length →
    callback s length = .error ∨
      ∃ s', callback s length = .ok (l.take length.toNat, s') ∧ serving s' (l.drop length.toNat)

/-- A decoder that asks for bytes and gets through has been given bytes, and the decoder that goes
on with them has got through. -/
theorem Reader.run_read {length : UInt32} {next : List α → Reader α ι}
    (h : (Reader.read length next).run callback s = .ok (image, total)) :
  ∃ bytes s' rest, callback s length = .ok (bytes, s') ∧
    (next bytes).run callback s' = .ok (image, rest) ∧ total = length.toNat + rest
  := by
  rw [run] at h
  split at h
  case h_1 => cases h
  case h_2 => cases h
  case h_3 bytes s' hcallback =>
    split at h
    case h_1 => cases h
    case h_2 => cases h
    case h_3 image' rest hrun =>
      obtain ⟨rfl, rfl⟩ := Prod.mk.inj (Reply.ok.inj h)
      exact ⟨bytes, s', rest, hcallback, hrun, rfl⟩

/-- A decoder that gets through with a callback that serves a list decodes this list if it has not
been given more bytes than the list has, and fails for the list otherwise. -/
theorem Reader.decodes_eq (hserves : Serves callback serving) {reader : Reader α ι}
    (hs : serving s l) (hrun : reader.run callback s = .ok (image, total)) :
  reader.decodes l = if total ≤ l.length then some image else none
  := by
  induction reader generalizing s l total with
  | done result =>
      cases result with
      | none => cases hrun
      | some image' =>
          obtain ⟨rfl, rfl⟩ := Prod.mk.inj (Reply.ok.inj hrun)
          rw [decodes, if_pos (Nat.zero_le _)]
  | read length next ih =>
      obtain ⟨bytes, s', rest, hcallback, hnext, rfl⟩ := run_read hrun
      rw [decodes]
      by_cases hlen : length.toNat ≤ l.length
      · rw [if_pos hlen]
        rcases hserves length hs hlen with herror | ⟨s'', hok, hs''⟩
        · rw [hcallback] at herror
          cases herror
        · rw [hcallback] at hok
          obtain ⟨rfl, rfl⟩ := Prod.mk.inj (Reply.ok.inj hok)
          rw [ih _ hs'' hnext, List.length_drop]
          congr 1
          rw [Nat.le_sub_iff_add_le' hlen]
      · have hmore : ¬ length.toNat + rest ≤ l.length := by omega
        rw [if_neg hlen, if_neg hmore]

/-! ### Encoders -/

/-- Bytes that are given to a callback at once: their number has 32 bits. -/
structure Chunk (α : Type*) where
  bytes : List α
  fits : bytes.length < UInt32.size

/-- The number of bytes of a chunk. -/
def Chunk.length (chunk : Chunk α) : UInt32 := UInt32.ofNatLT chunk.bytes.length chunk.fits

theorem Chunk.toNat_length (chunk : Chunk α) :
  chunk.length.toNat = chunk.bytes.length
  := UInt32.toNat_ofNatLT

variable {write : σ → Chunk α → Reply σ} {written : σ → List α → Prop} {max : ℕ}

/-- The chunks are given to the callback until it reports an error.  There is no result if the
callback leaves its memory. -/
def writeAll (write : σ → Chunk α → Reply σ) : List (Chunk α) → σ → Option σ
  | [], s => some s
  | chunk :: chunks, s =>
      match write s chunk with
      | .error => some s
      | .undefined => none
      | .ok s' => writeAll write chunks s'

/-- What holds at first and is kept by every chunk that is taken holds in the end. -/
theorem writeAll_invariant (invariant : σ → Prop)
    (hstep : ∀ {s s'} chunk, invariant s → write s chunk = .ok s' → invariant s')
    {chunks : List (Chunk α)} {s t : σ} (hs : invariant s)
    (h : writeAll write chunks s = some t) :
  invariant t
  := by
  induction chunks generalizing s with
  | nil =>
      obtain rfl := Option.some.inj h
      apply hs
  | cons chunk chunks ih =>
      rw [writeAll] at h
      split at h
      case h_1 =>
        obtain rfl := Option.some.inj h
        apply hs
      case h_2 => cases h
      case h_3 s' hwrite => apply ih (hstep chunk hs hwrite) h

/-- A callback that takes chunks as long as there is room for them takes all chunks of an encoder
whose bytes there is room for. -/
theorem exists_writeAll
    (hwrite : ∀ {s l} (chunk : Chunk α), written s l → l.length + chunk.bytes.length ≤ max →
      ∃ s', write s chunk = .ok s' ∧ written s' (l ++ chunk.bytes))
    {chunks : List (Chunk α)} (hs : written s l)
    (hmax : l.length + (chunks.flatMap Chunk.bytes).length ≤ max) :
  ∃ t, writeAll write chunks s = some t ∧ written t (l ++ chunks.flatMap Chunk.bytes)
  := by
  induction chunks generalizing s l with
  | nil =>
      use s, rfl
      rwa [List.flatMap_nil, List.append_nil]
  | cons chunk chunks ih =>
      rw [List.flatMap_cons, List.length_append] at hmax
      obtain ⟨s', hok, hs'⟩ := hwrite chunk hs (by omega)
      rw [writeAll, hok, List.flatMap_cons, ← List.append_assoc]
      apply ih hs'
      rw [List.length_append]
      omega

end ByteStream
