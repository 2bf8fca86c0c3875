import ModTile.Bytes.CString
import ModTile.Config

/-!
# The protocol between client and render daemon

The commands and the request structure of `protocol.h`.  The strings are arrays of
`XMLCONFIG_MAX` bytes, exactly as they travel on the wire: nothing makes them end in a
zero byte.  A string function that is given one of them reads on into the arrays that
follow it in the structure, which is what `Protocol.xmlnameString` and its companions
return.
-/

/-- The size of the string arrays of a request. -/
def xmlconfigMax : ℕ := 41

theorem xmlconfigMax_pos :
  0 < xmlconfigMax
  := Nat.zero_lt_succ 40

/-- The commands of the protocol.  A command that comes from the wire can be any number:
`unknown n` stands for the numbers that the enumeration does not name. -/
inductive ProtoCmd where
  | cmdIgnore
  | cmdRender
  | cmdDirty
  | cmdDone
  | cmdNotDone
  | cmdRenderPrio
  | cmdRenderBulk
  | cmdRenderLow
  | unknown (n : UInt32) (h : 8 ≤ n)
  deriving DecidableEq

/-- The string arrays of a request. -/
abbrev XmlconfigArray : Type := List.Vector UInt8 xmlconfigMax

/-- `struct protocol`: a command for one tile of one map. -/
structure Protocol where
  ver : Int32
  cmd : ProtoCmd
  x : Int32
  y : Int32
  z : Int32
  xmlname : XmlconfigArray
  mimetype : XmlconfigArray
  options : XmlconfigArray
  deriving DecidableEq

namespace Protocol

/-- The commands that ask for a rendering and for an answer. -/
def isRender (cmd : ProtoCmd) : Bool :=
  cmd = .cmdRender || cmd = .cmdRenderPrio || cmd = .cmdRenderLow || cmd = .cmdRenderBulk

/-- The string that starts at `options`. -/
def optionsString (req : Protocol) : List UInt8 :=
  Bytes.cString req.options.toList

/-- The string that starts at `mimetype`. -/
def mimetypeString (req : Protocol) : List UInt8 :=
  Bytes.cString (req.mimetype.toList ++ req.options.toList)

/-- The string that starts at `xmlname`. -/
def xmlnameString (req : Protocol) : List UInt8 :=
  Bytes.cString (req.xmlname.toList ++ (req.mimetype.toList ++ req.options.toList))

end Protocol
