import Mathlib.Data.List.GetD
import ModTile.Bytes.LittleEndian
import ModTile.Protocol.Basic

/-!
# The bytes of a command

How `struct protocol` lies in memory.  The strings have an odd number of bytes, so that the
structure ends with a byte of padding, and the shorter `struct protocol_v2` of the second
version of the protocol with three.
-/

/-- `sizeof(struct protocol_v1)` -/
def sizeV1 : ℕ := 20

/-- `sizeof(struct protocol_v2)` -/
def sizeV2 : ℕ := 64

/-- `sizeof(struct protocol)` -/
def sizeV3 : ℕ := 144

namespace ProtoCmd

/-- The number of a command. -/
def code : ProtoCmd → UInt32
  | cmdIgnore => 0
  | cmdRender => 1
  | cmdDirty => 2
  | cmdDone => 3
  | cmdNotDone => 4
  | cmdRenderPrio => 5
  | cmdRenderBulk => 6
  | cmdRenderLow => 7
  | unknown n _ => n

/-- The command with a number. -/
def ofCode (n : UInt32) : ProtoCmd :=
  if h : 8 ≤ n then unknown n h
  else if n = 0 then cmdIgnore
  else if n = 1 then cmdRender
  else if n = 2 then cmdDirty
  else if n = 3 then cmdDone
  else if n = 4 then cmdNotDone
  else if n = 5 then cmdRenderPrio
  else if n = 6 then cmdRenderBulk
  else cmdRenderLow

theorem ofCode_code (c : ProtoCmd) :
  ofCode c.code = c
  := by
  cases c with
  | unknown n h => rw [code, ofCode, dif_pos h]
  | _ => rfl

end ProtoCmd

namespace Protocol

/-- The array of characters at a place in memory. -/
def arrayAt (memory : List UInt8) (pos : ℕ) : XmlconfigArray :=
  List.Vector.ofFn fun i => memory.getD (pos + i) 0

/-- The integer at a place in memory. -/
def intAt (memory : List UInt8) (pos : ℕ) : UInt32 :=
  Bytes.getLe32 (memory.drop pos)

/-- The bytes of the integers of a command. -/
def header (p : Protocol) : List UInt8 :=
  Bytes.le32 p.ver.toUInt32 ++ Bytes.le32 p.cmd.code ++ Bytes.le32 p.x.toUInt32 ++
    Bytes.le32 p.y.toUInt32 ++ Bytes.le32 p.z.toUInt32

/-- The bytes of a command, where the last byte is padding. -/
def bytes (p : Protocol) (pad : UInt8) : List UInt8 :=
  p.header ++ (p.xmlname.toList ++ (p.mimetype.toList ++ (p.options.toList ++ [pad])))

/-- The command in memory. -/
def ofBytes (memory : List UInt8) : Protocol where
  ver := (intAt memory 0).toInt32
  cmd := .ofCode (intAt memory 4)
  x := (intAt memory 8).toInt32
  y := (intAt memory 12).toInt32
  z := (intAt memory 16).toInt32
  xmlname := arrayAt memory 20
  mimetype := arrayAt memory 61
  options := arrayAt memory 102

variable {front back : List UInt8} {pos : ℕ} {p : Protocol} {pad : UInt8}

theorem length_array (a : XmlconfigArray) :
  a.toList.length = 41
  := a.toList_length

theorem intAt_append {n : UInt32} (h : front.length = pos) :
  intAt (front ++ (Bytes.le32 n ++ back)) pos = n
  := by
  rw [intAt, List.drop_left' h, Bytes.getLe32_le32]

theorem arrayAt_append {a : XmlconfigArray} (h : front.length = pos) :
  arrayAt (front ++ (a.toList ++ back)) pos = a
  := by
  subst h
  apply List.Vector.ext
  intro i
  rw [arrayAt, List.Vector.get_ofFn, List.getD_append_right _ _ _ _ (by omega),
    Nat.add_sub_cancel_left, List.getD_append _ _ _ _ (by simp), List.getD_eq_getElem _ _ (by simp)]
  rfl

/-- The integers of a command are read back. -/
theorem intAt_header (p : Protocol) (back : List UInt8) :
  intAt (p.header ++ back) 0 = p.ver.toUInt32 ∧ intAt (p.header ++ back) 4 = p.cmd.code ∧
    intAt (p.header ++ back) 8 = p.x.toUInt32 ∧ intAt (p.header ++ back) 12 = p.y.toUInt32 ∧
    intAt (p.header ++ back) 16 = p.z.toUInt32
  := by
  simp only [header, List.append_assoc]
  refine ⟨Bytes.getLe32_le32, intAt_append rfl, ?_, ?_, ?_⟩
  · rw [← List.append_assoc]
    apply intAt_append rfl
  · rw [← List.append_assoc, ← List.append_assoc]
    apply intAt_append rfl
  · rw [← List.append_assoc, ← List.append_assoc, ← List.append_assoc]
    apply intAt_append rfl

theorem length_header :
  p.header.length = sizeV1
  := rfl

theorem length_bytes :
  (p.bytes pad).length = sizeV3
  := by
  simp only [bytes, List.length_append, length_header, length_array]
  rfl

/-- The fields of a command are read back. -/
theorem ofBytes_bytes (p : Protocol) (pad : UInt8) :
  ofBytes (p.bytes pad) = p
  := by
  have hxmlname : arrayAt (p.bytes pad) 20 = p.xmlname := by
    apply arrayAt_append length_header
  have hmimetype : arrayAt (p.bytes pad) 61 = p.mimetype := by
    rw [bytes, ← List.append_assoc]
    apply arrayAt_append
    rw [List.length_append, length_header, length_array]
    rfl
  have hoptions : arrayAt (p.bytes pad) 102 = p.options := by
    rw [bytes, ← List.append_assoc, ← List.append_assoc]
    apply arrayAt_append
    rw [List.length_append, List.length_append, length_header, length_array, length_array]
    rfl
  obtain ⟨hver, hcmd, hx, hy, hz⟩ := intAt_header p
    (p.xmlname.toList ++ (p.mimetype.toList ++ (p.options.toList ++ [pad])))
  rw [← bytes] at hver hcmd hx hy hz
  rw [ofBytes, hver, hcmd, hx, hy, hz, hxmlname, hmimetype, hoptions, ProtoCmd.ofCode_code]
  rfl

end Protocol
