import Mathlib.Data.List.Basic

/-!
# HTCP datagrams

With a datagram of the Hypertext Caching Protocol a cache is asked to drop a page.  A datagram has a
header with its length, data with a length of their own, and what proves that the sender may ask.
The data for an operation begin with its number and that of the transaction.  The operation to drop
a page has a reason and four strings that say which page it is.  Strings have their lengths before
them, and all numbers have their most significant byte first.
-/

namespace Htcp

/-- A datagram: the version of the protocol, the data of an operation, and the rest of the bytes,
with which the sender proves who they are. -/
structure Message where
  major : UInt8
  minor : UInt8
  opcode : UInt8
  transaction : ℕ
  opData : List UInt8
  auth : List UInt8
  deriving DecidableEq

/-- The page that an operation is for. -/
structure Specifier where
  method : List UInt8
  url : List UInt8
  version : List UInt8
  reqHdrs : List UInt8
  deriving DecidableEq

/-- The number of an operation to drop a page. -/
def clr : UInt8 := 4

/-- The value of two bytes. -/
def short (a b : UInt8) : ℕ := 256 * a.toNat + b.toNat

/-- The message in a datagram, if the lengths in it agree with its length. -/
def decode : List UInt8 → Option Message
  | l :: l' :: major :: minor :: d :: d' :: opcode :: _ :: t :: t' :: t'' :: t''' :: rest =>
      if short l l' ≠ rest.length + 12 then none
      else if short d d' < 8 ∨ rest.length + 8 < short d d' then none
      else
        some {
          major := major
          minor := minor
          opcode := opcode
          transaction := 65536 * short t t' + short t'' t'''
          opData := rest.take (short d d' - 8)
          auth := rest.drop (short d d' - 8) }
  | _ => none

/-- A string with its length before it, and the bytes after it. -/
def countstr : List UInt8 → Option (List UInt8 × List UInt8)
  | a :: b :: rest =>
      if short a b ≤ rest.length then some (rest.take (short a b), rest.drop (short a b)) else none
  | _ => none

/-- The page in the data of an operation, which have nothing after it. -/
def specifier (l : List UInt8) : Option Specifier :=
  (countstr l).bind fun method =>
    (countstr method.2).bind fun url =>
      (countstr url.2).bind fun version =>
        (countstr version.2).bind fun reqHdrs =>
          if reqHdrs.2 = [] then some ⟨method.1, url.1, version.1, reqHdrs.1⟩ else none

/-- The page that a message asks to drop. -/
def Message.clears (m : Message) : Option Specifier :=
  if m.opcode ≠ clr then none
  else
    match m.opData with
    | _ :: _ :: rest => specifier rest
    | _ => none

/-- The page that a datagram asks to drop. -/
def clears (datagram : List UInt8) : Option Specifier := (decode datagram).bind Message.clears

variable {a b d d' l l' major minor opcode r r' t t' t'' t''' v : UInt8} {s rest : List UInt8}

/-- A string is read back. -/
theorem countstr_append (h : short a b = s.length) :
  countstr (a :: b :: (s ++ rest)) = some (s, rest)
  := by
  rw [countstr, h, List.take_left, List.drop_left, if_pos (by simp)]

/-- A message without a proof is read back. -/
theorem decode_cons (hl : short l l' = rest.length + 12) (hd : short d d' = rest.length + 8) :
  decode (l :: l' :: major :: minor :: d :: d' :: opcode :: v :: t :: t' :: t'' :: t''' :: rest) =
    some ⟨major, minor, opcode, 65536 * short t t' + short t'' t''', rest, []⟩
  := by
  have hdata : ¬(short d d' < 8 ∨ rest.length + 8 < short d d') := by omega
  change (if short l l' ≠ rest.length + 12 then none
    else if short d d' < 8 ∨ rest.length + 8 < short d d' then none else some _) = _
  rw [if_neg (not_not.mpr hl), if_neg hdata, hd]
  simp

/-- The page of an operation to drop it. -/
theorem clears_cons (hl : short l l' = rest.length + 14) (hd : short d d' = rest.length + 10) :
  clears (l :: l' :: major :: minor :: d :: d' :: clr :: v :: t :: t' :: t'' :: t''' :: r :: r' ::
    rest) = specifier rest
  := by
  rw [clears, decode_cons hl hd, Option.bind_some, Message.clears, if_neg (not_not.mpr rfl)]

end Htcp
