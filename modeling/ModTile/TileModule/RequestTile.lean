import ModTile.Protocol.Framing
import ModTile.TileModule.Translate

/-!
# Requests of the Apache module

`request_tile` of `mod_tile.c` connects to the render daemon, sends a command and waits for the
answer.  The answer arrives in pieces.  How long it is depends on its version, which is known
when the first four bytes have arrived, and the loop asks for no more than is missing.

The waiting is a sequence of rounds, each a call of `poll` and, when there is something to read,
a call of `recv`.  The state of the loop is what has been received, what the daemon has sent
behind it, and the length that is wanted.
-/

namespace RequestTile

open Framing TileModule

/-! ### The request -/

/-- The command for a value of `renderImmediately`. -/
def requestCmd (renderImmediately : ℤ) (bulkMode : Bool) (old : ProtoCmd) : ProtoCmd :=
  if bulkMode then .cmdRenderBulk
  else if renderImmediately = 0 then .cmdDirty
  else if renderImmediately = 1 then .cmdRenderLow
  else if renderImmediately = 2 then .cmdRender
  else if renderImmediately = 3 then .cmdRenderPrio
  else old

/-- What happens in one attempt to send the command: the value that `send` returns, whether
`errno` is `EPIPE` after it, and whether the daemon can be connected again. -/
structure Attempt where
  ret : ℤ
  epipe : Bool
  reconnect : Bool

/-- The loop in which the command is sent, in the attempt `k` and with the given value of
`retry`: the bytes that have been sent on the connection that is open after it, or `none` when
the function returns.  Nothing is sent for another version than 2 or 3. -/
def sendLoop (cmd : Protocol) (pad : UInt8) (attempts : ℕ → Attempt) :
    ℕ → ℕ → Option (List UInt8)
  | retry, k =>
      let ret := if cmd.ver = 2 ∨ cmd.ver = 3 then (attempts k).ret else 0
      if ret = sizeV2 ∨ ret = sizeV3 then some ((frame cmd pad).take ret.toNat)
      else if (attempts k).epipe = false then none
      else if (attempts k).reconnect = false then none
      else
        match retry with
        | 0 => some []
        | retry + 1 => sendLoop cmd pad attempts retry (k + 1)

/-! ### The answer -/

/-- A result of `recv`: at most `quota` of the bytes that are asked for, an interruption, or
another error. -/
inductive RecvResult where
  | data (quota : ℕ)
  | eintr
  | error

/-- One round of the loop: the result of `poll`, and that of `recv` if there is something to
read. -/
inductive Round where
  | ready (result : RecvResult)
  | timeout
  | failed

/-- The loop in which the answer is received: it goes on, with the bytes that have been received,
those that have been sent behind them and the value of `want`, or the function has returned. -/
inductive Wait where
  | waiting (data stream : List UInt8) (want : ℕ)
  | returned (ret : ℤ) (stream : List UInt8)

/-- What the function returns for a complete answer. -/
def answer (cmd resp : Protocol) : ℤ :=
  if cmd.x = resp.x ∧ cmd.y = resp.y ∧ cmd.z = resp.z ∧
      cmd.xmlnameString = resp.xmlnameString then
    if resp.cmd = .cmdDone then 1 else 0
  else 0

/-- The value of `want` when `data` has been received. -/
def wanted (data : List UInt8) (want : ℕ) : ℕ :=
  if 4 ≤ data.length then
    if (received data).ver = 3 then sizeV3 else sizeV2
  else want

/-- The rest of a round after `recv` has delivered `chunk`. -/
def afterRecv (cmd : Protocol) (data stream : List UInt8) (want : ℕ) : Wait :=
  let want := wanted data want
  if data.length = want then .returned (answer cmd (received data)) stream
  else .waiting data stream want

/-- One round of the loop. -/
def round (cmd : Protocol) : Wait → Round → Wait
  | .returned ret stream, _ => .returned ret stream
  | .waiting data stream want, .ready (.data quota) =>
      let chunk := stream.take (min quota (want - data.length))
      if chunk.length = 0 then .returned 0 stream
      else afterRecv cmd (data ++ chunk) (stream.drop chunk.length) want
  | .waiting data stream want, .ready .eintr => .waiting data stream want
  | .waiting _ stream _, .ready .error => .returned 0 stream
  | .waiting _ stream _, .timeout => .returned 0 stream
  | .waiting _ stream _, .failed => .returned 0 stream

/-- The loop before the first round. -/
def start (stream : List UInt8) : Wait := .waiting [] stream sizeV2

/-- What `request_tile` sends, and how far it has come: `stream` is what the daemon sends on the
connection, and `rounds` are the rounds that have passed. -/
structure Call where
  sent : List UInt8
  wait : Wait

/-- A call of `request_tile`. -/
def requestTile (cmd : Protocol) (renderImmediately : ℤ) (bulkMode : Bool) (pad : UInt8)
    (connected : Bool) (attempts : ℕ → Attempt) (stream : List UInt8) (rounds : List Round) :
    Call :=
  if connected = false then ⟨[], .returned 0 stream⟩
  else
    let cmd := { cmd with cmd := requestCmd renderImmediately bulkMode cmd.cmd }
    match sendLoop cmd pad attempts 1 0 with
    | none => ⟨[], .returned 0 stream⟩
    | some sent =>
        if renderImmediately ≠ 0 then ⟨sent, rounds.foldl (round cmd) (start stream)⟩
        else ⟨sent, .returned 0 stream⟩

/-! ### One answer in any pieces -/

/-- The daemon delivers in this round, or `recv` is interrupted. -/
def Delivers : Round → Prop
  | .ready (.data quota) => 0 < quota
  | .ready .eintr => True
  | _ => False

/-- The round delivers data. -/
def isData : Round → Bool
  | .ready (.data _) => true
  | _ => false

/-- The answer is the one to the request, and says that it is done. -/
def IsDone (cmd p : Protocol) : Prop :=
  (cmd.x = p.x ∧ cmd.y = p.y ∧ cmd.z = p.z ∧
    Bytes.cString cmd.xmlname.toList = Bytes.cString p.xmlname.toList) ∧ p.cmd = .cmdDone

/-- How far the loop has come with the answer `p` when it was able to receive data `count` times:
some of its bytes are still missing and it asks for no others, or all of it has been received and
nothing behind it, and the function has returned 1 or 0 as `done` says. -/
inductive Decoding (done : Prop) (p : Protocol) (pad : UInt8) (rest : List UInt8) (count : ℕ) :
    Wait → Prop where
  | waiting {data missing : List UInt8} {want : ℕ} (hmissing : missing ≠ [])
      (hframe : frame p pad = data ++ missing) (hlt : data.length < want)
      (hmin : sizeV2 ≤ want) (hmax : want ≤ frameLength p.ver) (hcount : count ≤ data.length) :
      Decoding done p pad rest count (.waiting data (missing ++ rest) want)
  | returned {ret : ℤ} (hone : ret = 1 ↔ done) (hzero : ret = 0 ↔ ¬ done) :
      Decoding done p pad rest count (.returned ret rest)

variable {cmd p : Protocol} {pad : UInt8} {data stream rest missing : List UInt8} {count : ℕ}
  {w : Wait} {r : Round} {rounds : List Round}

/-- The names in the requests that `tile_translate` prepares are terminated. -/
theorem zero_mem_xmlname_of_tileTranslate {locals : Locals} {o : Store.InitOutcome}
    {configs : List TileConfigRec} {uri : List UInt8} {userdata : Userdata} {t : Translation}
    {rdata : TileRequestData} (h : tileTranslate locals o configs uri userdata = some t)
    (hrdata : t.rdata = some rdata) (hcmd : rdata.cmd = some cmd) :
  0 ∈ cmd.xmlname.toList
  := by
  obtain ⟨config, path, -, rfl⟩ := cmd_tileTranslate h hrdata hcmd
  apply Bytes.zero_mem_storeString

/-- What is received of the name and the place of the tile. -/
theorem asReceived_eq (hver : p.ver = 2 ∨ p.ver = 3) :
  asReceived p =
    { p with mimetype := (asReceived p).mimetype, options := (asReceived p).options }
  := by
  rcases hver with htwo | hthree
  · rw [asReceived, if_pos htwo]
  · rw [asReceived, if_neg (by rw [hthree]; decide), versionFields,
      if_neg (by rw [hthree]; decide), if_neg (by rw [hthree]; decide)]

/-- A complete answer is compared with the request. -/
theorem answer_frame (hname : 0 ∈ cmd.xmlname.toList) (hver : p.ver = 2 ∨ p.ver = 3) :
  (answer cmd (asReceived p) = 1 ↔ IsDone cmd p) ∧
    (answer cmd (asReceived p) = 0 ↔ ¬ IsDone cmd p)
  := by
  have hstring : cmd.xmlnameString = (asReceived p).xmlnameString ↔
      Bytes.cString cmd.xmlname.toList = Bytes.cString p.xmlname.toList := by
    rw [asReceived_eq hver]
    apply Bytes.cString_append_inj hname
    rw [Protocol.length_array, Protocol.length_array]
  have hfields : (asReceived p).x = p.x ∧ (asReceived p).y = p.y ∧ (asReceived p).z = p.z ∧
      (asReceived p).cmd = p.cmd := by
    rw [asReceived_eq hver]
    exact ⟨rfl, rfl, rfl, rfl⟩
  simp only [answer, hstring, hfields, IsDone]
  split_ifs with hmatch hdone
  · simp [hmatch, hdone]
  · simp [hdone]
  · simp [hmatch]

theorem knownVersion_of_or (hver : p.ver = 2 ∨ p.ver = 3) :
  knownVersion p.ver = true
  := by
  rcases hver with h | h
  all_goals rw [h]; decide

/-- When the version has arrived, the length of the frame is wanted. -/
theorem wanted_eq (hver : p.ver = 2 ∨ p.ver = 3) (hframe : frame p pad = data ++ missing)
    (hlen : 4 ≤ data.length) (want : ℕ) :
  wanted data want = frameLength p.ver
  := by
  rw [wanted, if_pos hlen, ver_of_frame_eq (knownVersion_of_or hver) hframe hlen]
  rcases hver with h | h
  all_goals rw [h]; rfl

/-- The state of the loop after more bytes of the answer have been received. -/
theorem decoding_afterRecv {want : ℕ} (hname : 0 ∈ cmd.xmlname.toList)
    (hver : p.ver = 2 ∨ p.ver = 3) (hframe : frame p pad = data ++ missing)
    (hle : data.length ≤ want) (hmin : sizeV2 ≤ want) (hmax : want ≤ frameLength p.ver)
    (hcount : count ≤ data.length) :
  Decoding (IsDone cmd p) p pad rest count (afterRecv cmd data (missing ++ rest) want)
  := by
  have hlength := congrArg List.length hframe
  rw [length_frame, List.length_append] at hlength
  rw [sizeV2] at hmin
  have hwanted : sizeV2 ≤ wanted data want ∧ wanted data want ≤ frameLength p.ver ∧
      data.length ≤ wanted data want ∧
      (data.length = wanted data want → data.length = frameLength p.ver) := by
    rcases Nat.lt_or_ge data.length 4 with hlt | hge
    · rw [wanted, if_neg (by omega), sizeV2]
      omega
    · rw [wanted_eq hver hframe hge, sizeV2]
      omega
  rw [afterRecv]
  split_ifs with hdone
  · have hmissing : missing = [] := by
      apply List.eq_nil_of_length_eq_zero
      have := hwanted.2.2.2 hdone
      omega
    subst hmissing
    rw [List.append_nil] at hframe
    rw [← hframe, received_frame (knownVersion_of_or hver)]
    obtain ⟨hone, hzero⟩ := answer_frame hname hver
    exact .returned hone hzero
  · apply Decoding.waiting _ hframe (by omega) hwanted.1 hwanted.2.1 hcount
    rintro rfl
    rw [List.length_nil] at hlength
    omega

/-- A round in which the daemon delivers something, or in which `recv` is interrupted, goes on
with the answer. -/
theorem decoding_round (hname : 0 ∈ cmd.xmlname.toList) (hver : p.ver = 2 ∨ p.ver = 3)
    (h : Decoding (IsDone cmd p) p pad rest count w) (hr : Delivers r) :
  Decoding (IsDone cmd p) p pad rest (count + (isData r).toNat) (round cmd w r)
  := by
  cases h with
  | returned hone hzero => exact .returned hone hzero
  | @waiting data missing want hmissing hframe hlt hmin hmax hcount =>
      cases r with
      | timeout => contradiction
      | failed => contradiction
      | ready result =>
          cases result with
          | eintr => exact .waiting hmissing hframe hlt hmin hmax hcount
          | error => contradiction
          | data quota =>
              have hlength := congrArg List.length hframe
              rw [length_frame, List.length_append] at hlength
              have hquota : 0 < quota := hr
              obtain ⟨n, hn⟩ : ∃ n, n = min quota (want - data.length) := ⟨_, rfl⟩
              have htake : (missing ++ rest).take n = missing.take n := by
                rw [List.take_append_of_le_length]
                omega
              have hchunk : (missing.take n).length = n := by
                rw [List.length_take]
                omega
              rw [round, ← hn, htake, hchunk, if_neg (by omega),
                List.drop_append_of_le_length (by omega)]
              apply decoding_afterRecv hname hver
              · rw [List.append_assoc, List.take_append_drop, hframe]
              · rw [List.length_append, hchunk]
                omega
              · exact hmin
              · exact hmax
              · rw [List.length_append, hchunk, isData, Bool.toNat_true]
                omega

/-- The loop receives the answer, whatever the pieces are in which it arrives. -/
theorem decoding_rounds (hname : 0 ∈ cmd.xmlname.toList) (hver : p.ver = 2 ∨ p.ver = 3)
    (h : Decoding (IsDone cmd p) p pad rest count w) (hrounds : ∀ r ∈ rounds, Delivers r) :
  Decoding (IsDone cmd p) p pad rest (count + rounds.countP isData) (rounds.foldl (round cmd) w)
  := by
  induction rounds generalizing count w with
  | nil => exact h
  | cons r rounds ih =>
      obtain ⟨hr, hrounds⟩ := List.forall_mem_cons.mp hrounds
      have hround := ih (decoding_round hname hver h hr) hrounds
      rw [List.foldl_cons, List.countP_cons]
      cases hdata : isData r with
      | false =>
          rw [hdata] at hround
          exact hround
      | true =>
          rw [hdata, Nat.add_right_comm] at hround
          exact hround

theorem decoding_start (hver : p.ver = 2 ∨ p.ver = 3) :
  Decoding (IsDone cmd p) p pad rest 0 (start (frame p pad ++ rest))
  := by
  have hlength : (frame p pad).length = frameLength p.ver := length_frame
  have hsizes : sizeV2 ≤ frameLength p.ver := by
    rcases hver with h | h
    all_goals rw [h]; decide
  have hne : frame p pad ≠ [] := by
    intro hnil
    rw [hnil] at hlength
    rw [← hlength] at hsizes
    contradiction
  have hnil : frame p pad = [] ++ frame p pad := rfl
  exact .waiting hne hnil (by decide) (le_refl _) hsizes (Nat.zero_le _)

/-- The loop from its start on. -/
theorem decoding_loop (hname : 0 ∈ cmd.xmlname.toList) (hver : p.ver = 2 ∨ p.ver = 3)
    (hrounds : ∀ r ∈ rounds, Delivers r) :
  Decoding (IsDone cmd p) p pad rest (rounds.countP isData)
    (rounds.foldl (round cmd) (start (frame p pad ++ rest)))
  := by
  rw [← Nat.zero_add (rounds.countP isData)]
  apply decoding_rounds hname hver (decoding_start hver) hrounds

/-- A request and the answer to it, in the given version of the protocol. -/
def sampleMessage (ver : Int32) (cmd : ProtoCmd) : Protocol where
  ver := ver
  cmd := cmd
  x := 5
  y := 2
  z := 3
  xmlname := Bytes.storeString (n := 40) (Bytes.ofString "osm") zeroArray
  mimetype := zeroArray
  options := zeroArray

/-- The first attempt to send a request of version 3 succeeds. -/
def sampleAttempts : ℕ → Attempt := fun _ => ⟨144, false, false⟩

end RequestTile
