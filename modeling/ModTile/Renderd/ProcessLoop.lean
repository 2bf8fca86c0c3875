import ModTile.Protocol.Framing
import ModTile.Transition

/-!
# The commands of a connection

What `process_loop` receives on one connection.  Each time the connection has data it calls
`recv_cmd`, passes a command on to `rx_request`, and closes the connection when there is none.
The calls do not block, so that the kernel decides how many bytes each of them gets.
-/

open Transition

namespace Framing

variable {block : Bool} {stream : List UInt8} {quota quota2 : Option ℕ} {p : Protocol}

/-- The frame at the start of a stream, and the rest of the stream. -/
def nextFrame (stream : List UInt8) : Option (Protocol × List UInt8) :=
  let n := frameLength (version stream)
  if sizeV1 ≤ stream.length ∧ knownVersion (version stream) = true ∧ n ≤ stream.length then
    some (received (stream.take n), stream.drop n)
  else none

theorem length_of_nextFrame {rest : List UInt8} (h : nextFrame stream = some (p, rest)) :
  rest.length < stream.length
  := by
  rw [nextFrame] at h
  split_ifs at h with hframe
  obtain ⟨-, rfl⟩ := Prod.mk.inj (Option.some.inj h)
  have hsize := sizeV1_le_frameLength (version stream)
  rw [List.length_drop]
  rw [sizeV1] at *
  omega

/-- The commands that are encoded in a stream. -/
def frames (stream : List UInt8) : List Protocol :=
  match _h : nextFrame stream with
  | none => []
  | some (p, rest) => p :: frames rest
termination_by stream.length
decreasing_by
  apply length_of_nextFrame _h

/-- A connection of the daemon: what is still to be received on it, the commands that have been
passed to `rx_request`, and whether it is open. -/
structure Connection where
  unread : List UInt8
  dispatched : List Protocol
  isOpen : Bool

/-- What `process_loop` does when a connection has data. -/
def pollIn (c : Connection) (quotas : Option ℕ × Option ℕ) : Option Connection :=
  if c.isOpen then
    let r := recvCmd false c.unread quotas.1 quotas.2
    if r.ret < 1 then some { c with unread := r.rest, isOpen := false }
    else some { c with unread := r.rest, dispatched := c.dispatched ++ [r.cmd] }
  else none

/-- No call of `recv` is short. -/
def notShort (c : Connection) (quotas : Option ℕ × Option ℕ) : Prop :=
  ¬ Short false c.unread quotas.1 quotas.2

/-- The commands that were passed on are the first frames of the stream, and while the
connection is open the other frames are still to be received. -/
structure Framed (stream : List UInt8) (c : Connection) : Prop where
  dispatched : c.dispatched <+: frames stream
  unread : c.isOpen = true → frames stream = c.dispatched ++ frames c.unread

theorem frames_of_nextFrame {rest : List UInt8} (h : nextFrame stream = some (p, rest)) :
  frames stream = p :: frames rest
  := by
  rw [frames]
  split
  · simp_all
  · simp_all

/-- A command that is accepted without a short call is the next frame. -/
theorem nextFrame_of_recvCmd (hshort : ¬ Short block stream quota quota2)
    (h : 0 < (recvCmd block stream quota quota2).ret) :
  nextFrame stream = some ((recvCmd block stream quota quota2).cmd,
    (recvCmd block stream quota quota2).rest)
  := by
  obtain ⟨n, heq, hlen, hver, rfl | ⟨-, habsurd⟩⟩ := recvCmd_pos h
  · rw [heq, nextFrame, if_pos]
    use (sizeV1_le_frameLength _).trans hlen, hver, hlen
  · contradiction

/-- What is done with the data of a connection keeps the commands framed. -/
theorem Framed.pollIn {c c' : Connection} {quotas : Option ℕ × Option ℕ} (h : Framed stream c)
    (hshort : notShort c quotas) (hstep : Framing.pollIn c quotas = some c') :
  Framed stream c'
  := by
  rw [Framing.pollIn] at hstep
  dsimp only at hstep
  split_ifs at hstep with hopen hret
  · obtain rfl := Option.some.inj hstep
    constructor
    case dispatched => apply h.dispatched
    case unread =>
      intro hclosed
      contradiction
  · obtain rfl := Option.some.inj hstep
    have hframes := frames_of_nextFrame (nextFrame_of_recvCmd hshort (by omega))
    have hall := h.unread hopen
    rw [hframes] at hall
    constructor
    case dispatched =>
      use frames (recvCmd false c.unread quotas.1 quotas.2).rest
      rw [hall, List.append_assoc]
      rfl
    case unread =>
      intro _
      rw [hall, List.append_assoc]
      rfl

/-- In every run without short calls the commands are framed. -/
theorem framed_of_reach {c : Connection}
    (h : Reach Framing.pollIn notShort ⟨stream, [], true⟩ c) :
  Framed stream c
  := by
  apply h.invariant
  case init =>
    constructor
    case dispatched => apply List.nil_prefix
    case unread =>
      intro _
      rfl
  case keep =>
    intro c quotas c' hc hok hstep
    apply hc.pollIn hok hstep

/-- A command comes back as it was sent exactly when it is not of version 2 or the first three
bytes of the field behind its frame are zero.  A command that is accepted has consumed its
frame exactly when the second call of `recv` was not short.  In every run of a connection
without short calls the commands are the first frames of the stream. -/
theorem framing (p : Protocol) (hver : knownVersion p.ver = true) (block : Bool)
    (stream : List UInt8) (quota quota2 : Option ℕ) :
  (RoundTrip p ↔ (p.ver = 2 → p.mimetype.toList.take 3 = [0, 0, 0])) ∧
    ((0 < (recvCmd block stream quota quota2).ret →
        WholeFrame stream (recvCmd block stream quota quota2)) ↔
      ¬ Short block stream quota quota2) ∧
    ∀ c, Reach Framing.pollIn notShort ⟨stream, [], true⟩ c → Framed stream c
  := by
  refine ⟨roundTrip_iff hver, wholeFrame_iff, ?_⟩
  intro c h
  apply framed_of_reach h

/-- A command of a version, with the bytes of another command in its field `mimetype`. -/
def sample (ver : Int32) : Protocol where
  ver := ver
  cmd := .cmdRender
  x := 16
  y := 8
  z := 6
  xmlname := Bytes.storeString (Bytes.ofString "default") zeroArray
  mimetype := ⟨[120, 0, 0, 1, 0, 0, 0, 1, 0, 0, 0, 5, 0, 0, 0, 6, 0, 0, 0, 7, 0, 0, 0] ++
    List.replicate 18 0, rfl⟩
  options := zeroArray

/-- A command of version 3 comes back as it was sent, and is received whole when it is there. -/
theorem framing_sample :
  RoundTrip (sample 3) ∧
    WholeFrame (frame (sample 3) 0) (recvCmd false (frame (sample 3) 0) (some 20) (some 124))
  := by
  obtain ⟨hround, hwhole, -⟩ := framing (sample 3) (by decide) false (frame (sample 3) 0)
    (some 20) (some 124)
  constructor
  · apply hround.mpr
    decide
  · apply hwhole.mpr
    · rw [Short]
      decide +kernel
    · decide +kernel

theorem frames_sample :
  frames (frame (sample 3) 0) = [sample 3]
  := by
  have hnext : nextFrame (frame (sample 3) 0) = some (sample 3, []) := by
    decide +kernel
  have hnil : nextFrame [] = none := by
    decide +kernel
  rw [frames_of_nextFrame hnext, frames]
  split
  · rfl
  · simp_all

/-- When the kernel delivers the first 64 bytes of a frame of version 3, `recv_cmd` accepts them
as a command, and the next call takes the middle of the frame for a command of version 1.
And a command of version 2 does not come back as it was sent. -/
theorem middle_of_frame_dispatched :
  (recvCmd false (frame (sample 3) 0) (some 20) (some 44)).ret = 64 ∧
    (recvCmd false (frame (sample 3) 0) (some 20) (some 44)).cmd.ver = 3 ∧
    (∃ c, Reach Framing.pollIn anyStep ⟨frame (sample 3) 0, [], true⟩ c ∧
      ¬ c.dispatched <+: frames (frame (sample 3) 0)) ∧
    ¬ RoundTrip (sample 2)
  := by
  have hrun : (run Framing.pollIn (fun _ _ => true) ⟨frame (sample 3) 0, [], true⟩
      [(some 20, some 44), (some 20, none)]).map (fun c => c.dispatched.length) = some 2 := by
    decide +kernel
  obtain ⟨c, hc, hlength⟩ := Option.map_eq_some_iff.mp hrun
  refine ⟨by decide +kernel, by decide +kernel, ⟨c, ?_, ?_⟩, ?_⟩
  · apply reach_of_run hc
    intro _ _ _
    trivial
  · intro h
    have hle := h.length_le
    rw [hlength, frames_sample] at hle
    contradiction
  · intro h
    have hzero := (roundTrip_iff (by decide)).mp h rfl
    contradiction

end Framing
