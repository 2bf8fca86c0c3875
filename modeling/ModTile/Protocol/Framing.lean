import ModTile.Protocol.Layout

/-!
# Sending and receiving commands

The functions `send_cmd` and `recv_cmd` of `protocol_helper.c`.  A command is a frame whose
length depends on the version of the protocol.  It is received with two calls of `recv`, the
second of which asks for what the version adds to the first one.
-/

namespace Framing

/-! ### Sending -/

/-- The length of the frame for a version. -/
def frameLength (ver : Int32) : ℕ :=
  if ver = 1 then sizeV1 else if ver = 2 then sizeV2 else sizeV3

/-- The versions of the protocol. -/
def knownVersion (ver : Int32) : Bool :=
  !(ver.toInt > 3 || ver.toInt < 1)

/-- What `send_cmd` returns, and the bytes that it sends.  The call of `send` takes `taken` of
the bytes, or fails. -/
def sendCmd (p : Protocol) (pad : UInt8) (fd : ℤ) (socket : Bool) (taken : Option ℕ) :
    ℤ × List UInt8 :=
  if fd < 0 then (-1, [])
  else if !knownVersion p.ver then (-1, [])
  else if !socket then (-1, [])
  else
    match taken with
    | none => (-1, [])
    | some n =>
        let sent := ((p.bytes pad).take (frameLength p.ver)).take n
        (sent.length, sent)

/-! ### Receiving -/

/-- A call of `recv` for `n` bytes of the stream, of which `quota` are available: the value
that is returned, and the bytes.  Without a quota the call fails.  A blocking call waits for
all of them. -/
def recv (block : Bool) (stream : List UInt8) (n : ℕ) (quota : Option ℕ) : ℤ × List UInt8 :=
  match quota with
  | none => (-1, [])
  | some available =>
      let data := stream.take (if block then n else min available n)
      (data.length, data)

/-- The command in memory that was zero before `data` was received. -/
def received (data : List UInt8) : Protocol :=
  .ofBytes (data ++ List.replicate (sizeV3 - data.length) 0)

/-- What `recv_cmd` returns and stores, and the rest of the stream. -/
structure Result where
  ret : ℤ
  cmd : Protocol
  rest : List UInt8
  deriving DecidableEq

/-- The second call of `recv`, for what the version adds. -/
def recvMore (block : Bool) (ver : Int32) (stream : List UInt8) (quota : Option ℕ) :
    ℤ × List UInt8 :=
  if ver = 1 then (0, [])
  else if ver = 2 then recv block stream (sizeV2 - sizeV1) quota
  else recv block stream (sizeV3 - sizeV1) quota

/-- Receiving the rest of a command, after `data` has been received. -/
def recvRest (block : Bool) (data stream : List UInt8) (quota : Option ℕ) : Result :=
  let ver := (received data).ver
  let second := recvMore block ver stream quota
  let cmd := received (data ++ second.2)
  let rest := stream.drop second.2.length
  if ver.toInt > 1 ∧ second.1 < 1 then ⟨-1, cmd, rest⟩
  else
    let ret := data.length + second.1
    if ret = sizeV3 ∨ ret = sizeV1 ∨ ret = sizeV2 then ⟨ret, cmd, rest⟩ else ⟨0, cmd, rest⟩

/-- Receiving a command. -/
def recvCmd (block : Bool) (stream : List UInt8) (quota quota2 : Option ℕ) : Result :=
  let first := recv block stream sizeV1 quota
  let cmd := received first.2
  let rest := stream.drop first.2.length
  if first.1 < 1 then ⟨-1, cmd, rest⟩
  else if first.1 < sizeV1 then ⟨0, cmd, rest⟩
  else if !knownVersion cmd.ver then ⟨-1, cmd, rest⟩
  else recvRest block first.2 rest quota2

/-- The second call of `recv` delivers as many bytes of a frame of version 3 as a frame of
version 2 has. -/
def Short (block : Bool) (stream : List UInt8) (quota quota2 : Option ℕ) : Prop :=
  (recv block stream sizeV1 quota).2.length = sizeV1 ∧
    (received (stream.take sizeV1)).ver = 3 ∧
    (recv block (stream.drop sizeV1) (sizeV3 - sizeV1) quota2).2.length = sizeV2 - sizeV1

variable {block : Bool} {stream : List UInt8} {quota quota2 : Option ℕ} {n : ℕ}

/-! ### One call -/

/-- The version of the frame at the start of a stream. -/
def version (stream : List UInt8) : Int32 :=
  (received (stream.take sizeV1)).ver

/-- A call of `recv` takes bytes from the start of the stream. -/
theorem recv_spec (block : Bool) (stream : List UInt8) (n : ℕ) (quota : Option ℕ) :
  (recv block stream n quota).2.length ≤ n ∧
    (recv block stream n quota).2 = stream.take (recv block stream n quota).2.length ∧
    ((recv block stream n quota).1 = (recv block stream n quota).2.length ∨
      (recv block stream n quota).1 = -1 ∧ (recv block stream n quota).2 = [])
  := by
  cases quota with
  | none => simp [recv]
  | some available =>
      simp only [recv, List.length_take]
      refine ⟨?_, ?_, Or.inl trivial⟩
      · split
        all_goals omega
      · rw [List.take_eq_take_min]

theorem recvMore_spec (block : Bool) (ver : Int32) (stream : List UInt8) (quota : Option ℕ) :
  (recvMore block ver stream quota).2.length ≤ frameLength ver - sizeV1 ∧
    (recvMore block ver stream quota).2 =
      stream.take (recvMore block ver stream quota).2.length ∧
    ((recvMore block ver stream quota).1 = (recvMore block ver stream quota).2.length ∨
      (recvMore block ver stream quota).1 = -1 ∧ (recvMore block ver stream quota).2 = [])
  := by
  rw [recvMore, frameLength]
  split_ifs
  · simp
  · apply recv_spec
  · apply recv_spec

/-- The version is in the first four bytes. -/
theorem ver_eq_getLe32 {data : List UInt8} (h : 4 ≤ data.length) :
  (received data).ver = (Bytes.getLe32 data).toInt32
  := by
  rw [received, Protocol.ofBytes, Protocol.intAt, List.drop_zero, Bytes.getLe32_append h]

/-- The version is in the part that the first call receives. -/
theorem ver_received {data : List UInt8} (h : sizeV1 ≤ data.length) :
  (received data).ver = (received (data.take sizeV1)).ver
  := by
  have htake : 4 ≤ (data.take sizeV1).length := by
    rw [List.length_take, sizeV1] at *
    omega
  rw [ver_eq_getLe32 (by rw [sizeV1] at h; omega), ver_eq_getLe32 htake]
  nth_rewrite 1 [← List.take_append_drop sizeV1 data]
  rw [Bytes.getLe32_append htake]

/-- A version that is known is one of three. -/
theorem knownVersion_cases {ver : Int32} (h : knownVersion ver = true) :
  ver = 1 ∨ ver = 2 ∨ ver = 3
  := by
  simp only [knownVersion, Bool.not_eq_true', Bool.or_eq_false_iff, decide_eq_false_iff_not] at h
  simp only [← Int32.toInt_inj]
  have h1 : (1 : Int32).toInt = 1 := rfl
  have h2 : (2 : Int32).toInt = 2 := rfl
  have h3 : (3 : Int32).toInt = 3 := rfl
  omega

/-- The result when both calls deliver data and the total is the size of a frame. -/
theorem recvCmd_of_length {m : ℕ} (hfirst : (recv block stream sizeV1 quota).2.length = sizeV1)
    (hver : knownVersion (version stream) = true)
    (hsecond : (recvMore block (version stream) (stream.drop sizeV1) quota2).2.length = m)
    (hpos : (version stream).toInt > 1 → 0 < m)
    (htotal : sizeV1 + m = sizeV3 ∨ sizeV1 + m = sizeV1 ∨ sizeV1 + m = sizeV2) :
  recvCmd block stream quota quota2 =
      ⟨(sizeV1 + m : ℕ), received (stream.take (sizeV1 + m)), stream.drop (sizeV1 + m)⟩ ∧
    sizeV1 + m ≤ stream.length
  := by
  obtain ⟨-, hdata, hret⟩ := recv_spec block stream sizeV1 quota
  obtain ⟨-, hdata2, hret2⟩ := recvMore_spec block (version stream) (stream.drop sizeV1) quota2
  rw [hfirst] at hdata hret
  rw [hsecond] at hdata2 hret2
  have hcount : (recv block stream sizeV1 quota).1 = sizeV1 := by
    rcases hret with hret | ⟨-, hempty⟩
    · apply hret
    · rw [hempty] at hfirst
      contradiction
  have hcount2 : (recvMore block (version stream) (stream.drop sizeV1) quota2).1 = m := by
    rcases hret2 with hret2 | ⟨hfail, hempty⟩
    · apply hret2
    · rw [hempty, List.length_nil] at hsecond
      rcases knownVersion_cases hver with hone | htwo | hthree
      · rw [hone, ← hsecond]
        rfl
      · have := hpos (by rw [htwo]; decide)
        omega
      · have := hpos (by rw [hthree]; decide)
        omega
  have hmin : (stream.take sizeV1).length = sizeV1 := by
    rw [← hdata, hfirst]
  constructor
  · have hsum : (sizeV1 : ℤ) + m = sizeV3 ∨ (sizeV1 : ℤ) + m = sizeV1 ∨
        (sizeV1 : ℤ) + m = sizeV2 := by
      omega
    rw [recvCmd, hcount, if_neg (by decide), if_neg (by decide), hfirst, hdata, ← version, hver,
      if_neg (by decide), recvRest, ← version, hcount2, hsecond, hmin, hdata2, if_neg (by omega),
      if_pos hsum, List.drop_drop, ← List.take_add, Int.natCast_add]
  · have hlength := congrArg List.length hdata2
    rw [hsecond, List.length_take, List.length_drop] at hlength
    rw [List.length_take] at hmin
    omega

/-- What the two calls have delivered when `recv_cmd` returns a positive value. -/
theorem counts_of_recvCmd_pos (h : 0 < (recvCmd block stream quota quota2).ret) :
  let m := (recvMore block (version stream) (stream.drop sizeV1) quota2).2.length
  (recv block stream sizeV1 quota).2.length = sizeV1 ∧ knownVersion (version stream) = true ∧
    ((version stream).toInt > 1 → 0 < m) ∧
    (sizeV1 + m = sizeV3 ∨ sizeV1 + m = sizeV1 ∨ sizeV1 + m = sizeV2)
  := by
  obtain ⟨hle, hdata, hret⟩ := recv_spec block stream sizeV1 quota
  obtain ⟨-, -, hret2⟩ := recvMore_spec block (version stream) (stream.drop sizeV1) quota2
  have hsizes : sizeV1 = 20 ∧ sizeV2 = 64 ∧ sizeV3 = 144 := ⟨rfl, rfl, rfl⟩
  rw [recvCmd] at h
  split_ifs at h with hnone hpart hver
  · simp at h
  · simp at h
  · simp at h
  · have hlen : (recv block stream sizeV1 quota).2.length = sizeV1 := by
      omega
    have hfirst : (recv block stream sizeV1 quota).2 = stream.take sizeV1 := by
      rw [hdata, hlen]
    rw [hfirst, ← version, Bool.not_eq_true, Bool.not_eq_false'] at hver
    rw [hlen, recvRest, hlen, hfirst, ← version] at h
    dsimp only at h
    split_ifs at h with hmore htotal
    · simp at h
    · use hlen, hver
      omega
    · simp at h

/-- What has been received when `recv_cmd` returns a positive value. -/
theorem recvCmd_pos (h : 0 < (recvCmd block stream quota quota2).ret) :
  ∃ n : ℕ, recvCmd block stream quota quota2 = ⟨n, received (stream.take n), stream.drop n⟩ ∧
    n ≤ stream.length ∧ knownVersion (version stream) = true ∧
    (n = frameLength (version stream) ∨ n = sizeV2 ∧ Short block stream quota quota2)
  := by
  obtain ⟨hfirst, hver, hpos, htotal⟩ := counts_of_recvCmd_pos h
  obtain ⟨hle, -⟩ := recvMore_spec block (version stream) (stream.drop sizeV1) quota2
  obtain ⟨heq, hlen⟩ := recvCmd_of_length hfirst hver rfl hpos htotal
  have hsizes : sizeV1 = 20 ∧ sizeV2 = 64 ∧ sizeV3 = 144 := ⟨rfl, rfl, rfl⟩
  refine ⟨_, heq, hlen, hver, ?_⟩
  rcases knownVersion_cases hver with hone | htwo | hthree
  · have hframe : frameLength (version stream) = 20 := by
      rw [hone]
      rfl
    left
    omega
  · have hframe : frameLength (version stream) = 64 ∧ (version stream).toInt = 2 := by
      rw [htwo]
      exact ⟨rfl, rfl⟩
    left
    omega
  · have hframe : frameLength (version stream) = 144 ∧ (version stream).toInt = 3 := by
      rw [hthree]
      exact ⟨rfl, rfl⟩
    have hmore : recvMore block (version stream) (stream.drop sizeV1) quota2 =
        recv block (stream.drop sizeV1) (sizeV3 - sizeV1) quota2 := by
      rw [hthree]
      rfl
    rw [Short, ← version, ← hmore]
    rcases htotal with hwhole | hone | hshort
    · left
      omega
    · omega
    · right
      use hshort, hfirst, hthree
      omega

/-- The whole frame at the start of the stream has been consumed. -/
def WholeFrame (stream : List UInt8) (r : Result) : Prop :=
  frameLength r.cmd.ver ≤ stream.length ∧ r.rest = stream.drop (frameLength r.cmd.ver)

theorem sizeV1_le_frameLength (ver : Int32) :
  sizeV1 ≤ frameLength ver
  := by
  rw [frameLength]
  split_ifs
  all_goals decide

/-- A command is accepted with the version of its frame. -/
theorem ver_received_take (hn : sizeV1 ≤ n) (hlen : n ≤ stream.length) :
  (received (stream.take n)).ver = version stream
  := by
  rw [ver_received, List.take_take, Nat.min_eq_left hn, version]
  rw [List.length_take]
  omega

/-- A short second call makes `recv_cmd` accept a part of a frame. -/
theorem recvCmd_short (h : Short block stream quota quota2) :
  recvCmd block stream quota quota2 =
    ⟨sizeV2, received (stream.take sizeV2), stream.drop sizeV2⟩ ∧
  sizeV2 ≤ stream.length ∧ version stream = 3
  := by
  obtain ⟨hfirst, hver, hsecond⟩ := h
  rw [← version] at hver
  have hmore : (recvMore block (version stream) (stream.drop sizeV1) quota2).2.length =
      sizeV2 - sizeV1 := by
    rw [hver]
    apply hsecond
  obtain ⟨heq, hlen⟩ := recvCmd_of_length hfirst (by rw [hver]; decide) hmore
    (fun _ => by decide) (by decide)
  use heq, hlen, hver

/-- A command that is accepted has consumed its frame exactly when the second call was not
short. -/
theorem wholeFrame_iff :
  (0 < (recvCmd block stream quota quota2).ret →
    WholeFrame stream (recvCmd block stream quota quota2)) ↔
  ¬ Short block stream quota quota2
  := by
  constructor
  · intro hwhole hshort
    obtain ⟨heq, hlen, hver⟩ := recvCmd_short hshort
    rw [heq] at hwhole
    obtain ⟨hle, hrest⟩ := hwhole (Int.natCast_pos.mpr (by decide))
    dsimp only at hle hrest
    rw [ver_received_take (by decide) hlen, hver] at hle hrest
    have hlength := congrArg List.length hrest
    rw [List.length_drop, List.length_drop] at hlength
    have hsizes : frameLength 3 = 144 ∧ sizeV2 = 64 := ⟨rfl, rfl⟩
    omega
  · intro hshort h
    obtain ⟨n, heq, hlen, -, rfl | ⟨-, habsurd⟩⟩ := recvCmd_pos h
    · rw [heq, WholeFrame]
      dsimp only
      rw [ver_received_take (sizeV1_le_frameLength _) hlen]
      use hlen
    · contradiction

/-! ### A command that is sent and received -/

variable {p : Protocol} {pad : UInt8} {k m : ℕ}

/-- An array of zero bytes. -/
def zeroArray : XmlconfigArray := List.Vector.replicate xmlconfigMax 0

/-- The fields of the version of a command, with the other fields zero. -/
def versionFields (p : Protocol) : Protocol :=
  if p.ver = 1 then
    { p with xmlname := zeroArray, mimetype := zeroArray, options := zeroArray }
  else if p.ver = 2 then { p with mimetype := zeroArray, options := zeroArray }
  else p

/-- The first three bytes of an array, with zero bytes after them. -/
def firstThree (a : XmlconfigArray) : XmlconfigArray :=
  ⟨a.toList.take 3 ++ List.replicate 38 0, by
    rw [List.length_append, List.length_take, Protocol.length_array, List.length_replicate]
    rfl⟩

theorem toList_firstThree (a : XmlconfigArray) :
  (firstThree a).toList = a.toList.take 3 ++ List.replicate 38 0
  := rfl

theorem firstThree_eq_iff {a : XmlconfigArray} :
  firstThree a = zeroArray ↔ a.toList.take 3 = [0, 0, 0]
  := by
  have hzero : zeroArray.toList = [0, 0, 0] ++ List.replicate 38 0 := rfl
  constructor
  · intro h
    have hlist := congrArg List.Vector.toList h
    rw [toList_firstThree, hzero] at hlist
    apply List.append_cancel_right hlist
  · intro h
    apply List.Vector.toList_injective
    rw [toList_firstThree, hzero, h]

/-- What is received for a command.  The frame of version 2 ends with padding, in which the
first three bytes of the next field are sent. -/
def asReceived (p : Protocol) : Protocol :=
  if p.ver = 2 then { p with mimetype := firstThree p.mimetype, options := zeroArray }
  else versionFields p

/-- The bytes that are sent for a command. -/
def frame (p : Protocol) (pad : UInt8) : List UInt8 :=
  (p.bytes pad).take (frameLength p.ver)

/-- A blocking call delivers all the bytes if there are enough. -/
theorem length_recv_block (h : n ≤ stream.length) :
  (recv true stream n (some k)).2.length = n
  := List.length_take_of_le h

theorem length_recvMore_block {ver : Int32} (hver : knownVersion ver = true)
    (h : frameLength ver - sizeV1 ≤ stream.length) :
  (recvMore true ver stream (some k)).2.length = frameLength ver - sizeV1
  := by
  rcases knownVersion_cases hver with rfl | rfl | rfl
  · rfl
  · apply length_recv_block h
  · apply length_recv_block h

/-- The lengths of the frames. -/
theorem frameLength_cases {ver : Int32} (hver : knownVersion ver = true) :
  (ver.toInt > 1 → sizeV1 < frameLength ver) ∧
    (frameLength ver = sizeV3 ∨ frameLength ver = sizeV1 ∨ frameLength ver = sizeV2)
  := by
  rcases knownVersion_cases hver with rfl | rfl | rfl
  all_goals decide

/-- A blocking `recv_cmd` receives a frame that is in the stream. -/
theorem recvCmd_block (hver : knownVersion (version stream) = true)
    (hlen : frameLength (version stream) ≤ stream.length) :
  recvCmd true stream (some k) (some m) =
    ⟨frameLength (version stream), received (stream.take (frameLength (version stream))),
      stream.drop (frameLength (version stream))⟩
  := by
  have hsize := sizeV1_le_frameLength (version stream)
  have hsum : sizeV1 + (frameLength (version stream) - sizeV1) = frameLength (version stream) :=
    Nat.add_sub_cancel' hsize
  have hmore : (recvMore true (version stream) (stream.drop sizeV1) (some m)).2.length =
      frameLength (version stream) - sizeV1 := by
    apply length_recvMore_block hver
    rw [List.length_drop]
    omega
  obtain ⟨hpos, htotal⟩ := frameLength_cases hver
  obtain ⟨heq, -⟩ := recvCmd_of_length (length_recv_block (hsize.trans hlen)) hver hmore
    (fun h => Nat.sub_pos_of_lt (hpos h)) (by rw [hsum]; apply htotal)
  rw [hsum] at heq
  apply heq

/-- A frame starts with the integers of the command. -/
theorem frame_eq :
  frame p pad = p.header ++ (p.xmlname.toList ++ (p.mimetype.toList ++
    (p.options.toList ++ [pad]))).take (frameLength p.ver - sizeV1)
  := by
  rw [frame, Protocol.bytes, List.take_append, List.take_of_length_le]
  · rfl
  · apply sizeV1_le_frameLength

theorem version_frame (p : Protocol) (pad : UInt8) (rest : List UInt8) :
  version (frame p pad ++ rest) = p.ver
  := by
  obtain ⟨hver, -⟩ := p.intAt_header (List.replicate (sizeV3 - p.header.length) 0)
  rw [version, frame_eq, List.append_assoc, List.take_left' Protocol.length_header, received,
    Protocol.ofBytes, hver]
  rfl

/-- The memory after a frame has been received. -/
theorem frame_append_replicate (hver : knownVersion p.ver = true) (pad : UInt8) :
  ∃ pad', frame p pad ++ List.replicate (sizeV3 - (frame p pad).length) 0 =
    (asReceived p).bytes pad'
  := by
  rcases knownVersion_cases hver with hone | htwo | hthree
  · have hframe : frame p pad = p.header := by
      have hsize : frameLength 1 - sizeV1 = 0 := rfl
      rw [frame_eq, hone, hsize, List.take_zero, List.append_nil]
    use 0
    rw [asReceived, if_neg (by rw [hone]; decide), versionFields, if_pos hone, hframe]
    rfl
  · have hframe : frame p pad = p.header ++ (p.xmlname.toList ++ p.mimetype.toList.take 3) := by
      have hsize : frameLength 2 - sizeV1 = 44 := rfl
      rw [frame_eq, htwo, hsize, List.take_append, Protocol.length_array,
        List.take_of_length_le (by rw [Protocol.length_array]; decide),
        List.take_append_of_le_length (by rw [Protocol.length_array]; decide)]
    have hlength : (frame p pad).length = 64 := by
      rw [hframe, List.length_append, List.length_append, List.length_take,
        Protocol.length_header, Protocol.length_array, Protocol.length_array]
      rfl
    use 0
    rw [asReceived, if_pos htwo, hlength, hframe, List.append_assoc, List.append_assoc,
      Protocol.bytes]
    dsimp only
    rw [toList_firstThree, List.append_assoc]
    rfl
  · have hframe : frame p pad = p.bytes pad := by
      rw [frame, hthree]
      apply List.take_of_length_le
      rw [Protocol.length_bytes]
      decide
    use pad
    rw [asReceived, if_neg (by rw [hthree]; decide), versionFields,
      if_neg (by rw [hthree]; decide), if_neg (by rw [hthree]; decide), hframe,
      Protocol.length_bytes, Nat.sub_self, List.replicate_zero, List.append_nil]

theorem received_frame (hver : knownVersion p.ver = true) :
  received (frame p pad) = asReceived p
  := by
  obtain ⟨pad', h⟩ := frame_append_replicate hver pad
  rw [received, h, Protocol.ofBytes_bytes]

/-- The first four bytes of a frame are received as its version. -/
theorem ver_of_frame_eq {data missing : List UInt8} (hver : knownVersion p.ver = true)
    (h : frame p pad = data ++ missing) (hlen : 4 ≤ data.length) :
  (received data).ver = p.ver
  := by
  have hfields : (asReceived p).ver = p.ver := by
    rw [asReceived, versionFields]
    split_ifs <;> rfl
  have hreceived : received (data ++ missing) = asReceived p := by
    rw [← h, received_frame hver]
  rw [← hfields, ← hreceived, ver_eq_getLe32 hlen,
    ver_eq_getLe32 (by rw [List.length_append]; omega), Bytes.getLe32_append hlen]

/-- The fields of other versions are zero exactly when the padding is. -/
theorem asReceived_eq_iff :
  asReceived p = versionFields p ↔ (p.ver = 2 → p.mimetype.toList.take 3 = [0, 0, 0])
  := by
  rcases eq_or_ne p.ver 2 with htwo | hother
  · have hne : p.ver ≠ 1 := by
      rw [htwo]
      decide
    rw [asReceived, if_pos htwo, versionFields, if_neg hne, if_pos htwo, ← firstThree_eq_iff]
    constructor
    · intro h _
      apply congrArg Protocol.mimetype h
    · intro h
      rw [h htwo]
  · rw [asReceived, if_neg hother]
    constructor
    · intro _ h
      contradiction
    · intro _
      rfl

/-- The bytes that `send_cmd` sends for a command are received by a blocking `recv_cmd`, and no
more than these, with the fields of the version and the other fields zero. -/
def RoundTrip (p : Protocol) : Prop :=
  ∀ (pad : UInt8) (fd : ℤ) (rest : List UInt8) (k m : ℕ), 0 ≤ fd →
    let sent := sendCmd p pad fd true (some (frameLength p.ver))
    sent.1 = frameLength p.ver ∧
      recvCmd true (sent.2 ++ rest) (some k) (some m) = ⟨sent.1, versionFields p, rest⟩

theorem length_frame :
  (frame p pad).length = frameLength p.ver
  := by
  rw [frame, List.length_take_of_le]
  rw [Protocol.length_bytes, frameLength]
  split_ifs
  all_goals decide

theorem roundTrip_iff (hver : knownVersion p.ver = true) :
  RoundTrip p ↔ (p.ver = 2 → p.mimetype.toList.take 3 = [0, 0, 0])
  := by
  have hsend : ∀ (pad : UInt8) (fd : ℤ), 0 ≤ fd →
      sendCmd p pad fd true (some (frameLength p.ver)) =
        ((frameLength p.ver : ℤ), frame p pad) := by
    intro pad fd hfd
    have htake : (frame p pad).take (frameLength p.ver) = frame p pad :=
      List.take_of_length_le length_frame.le
    rw [sendCmd, if_neg (by omega), hver, if_neg (by decide), if_neg (by decide)]
    dsimp only
    rw [← frame, htake, length_frame]
  have hrecv : ∀ (pad : UInt8) (rest : List UInt8) (k m : ℕ),
      recvCmd true (frame p pad ++ rest) (some k) (some m) =
        ⟨frameLength p.ver, asReceived p, rest⟩ := by
    intro pad rest k m
    have hversion := version_frame p pad rest
    rw [recvCmd_block, hversion, List.take_left' length_frame, List.drop_left' length_frame,
      received_frame hver]
    · rw [hversion, hver]
    · rw [hversion, List.length_append, length_frame]
      apply Nat.le_add_right
  rw [← asReceived_eq_iff]
  constructor
  · intro h
    obtain ⟨-, hround⟩ := h 0 0 [] 0 0 (Int.le_refl 0)
    rw [hsend 0 0 (Int.le_refl 0), hrecv] at hround
    apply congrArg Result.cmd hround
  · intro h pad fd rest k m hfd
    rw [hsend pad fd hfd]
    use rfl
    dsimp only
    rw [hrecv, h]

end Framing
