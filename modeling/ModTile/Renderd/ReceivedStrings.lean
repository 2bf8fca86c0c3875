import ModTile.Protocol.Framing
import ModTile.Renderd.Answers

/-!
# The strings in received requests

The strings of a request are arrays that come from the network.  The functions that compare
and print them read up to the first zero byte, wherever that is.  `rx_request` writes the
strings that the version of the request does not have, but takes the others as they are.

So the strings of an item end within their arrays exactly when the client has put a zero byte
into each array that its version of the protocol has, or when the frame was cut short and the
rest of the request is still zero.
-/

/-- Every string array of a request has a zero byte. -/
def Protocol.Terminated (req : Protocol) : Prop :=
  0 ∈ req.xmlname.toList ∧ 0 ∈ req.mimetype.toList ∧ 0 ∈ req.options.toList

instance (req : Protocol) : Decidable req.Terminated :=
  inferInstanceAs (Decidable (_ ∧ _ ∧ _))

/-- The string functions do not read past the string arrays of a request: there is room for the
zero byte after each string. -/
def Protocol.ReadsInside (req : Protocol) : Prop :=
  req.xmlnameString.length < xmlconfigMax ∧ req.mimetypeString.length < xmlconfigMax ∧
    req.optionsString.length < xmlconfigMax

namespace Framing

/-- The array at a place in the stream has a zero byte. -/
def ZeroByte (stream : List UInt8) (pos : ℕ) : Prop :=
  0 ∈ (stream.drop pos).take xmlconfigMax

/-- The client has terminated the strings that its version of the protocol has, as far as they
are among the `ret` bytes that have been received. -/
def TerminatedFrame (stream : List UInt8) (ret : ℤ) : Prop :=
  version stream = 1 ∨
    ZeroByte stream 20 ∧
      (version stream = 2 ∨ ret = sizeV2 ∨ ZeroByte stream 61 ∧ ZeroByte stream 102)

instance (stream : List UInt8) (pos : ℕ) : Decidable (ZeroByte stream pos) :=
  inferInstanceAs (Decidable (_ ∈ _))

instance (stream : List UInt8) (ret : ℤ) : Decidable (TerminatedFrame stream ret) :=
  inferInstanceAs (Decidable (_ ∨ _ ∧ (_ ∨ _ ∨ _ ∧ _)))

variable {stream memory : List UInt8} {pos n : ℕ} {block : Bool} {quota quota2 : Option ℕ}

theorem zero_mem_arrayAt_iff :
  0 ∈ (Protocol.arrayAt memory pos).toList ↔ ∃ i < xmlconfigMax, memory.getD (pos + i) 0 = 0
  := by
  rw [Protocol.arrayAt, List.Vector.toList_ofFn, List.mem_ofFn]
  constructor
  · rintro ⟨i, hi⟩
    exact ⟨i, i.2, hi⟩
  · rintro ⟨i, hlt, hi⟩
    exact ⟨⟨i, hlt⟩, hi⟩

theorem zeroByte_iff (h : pos + xmlconfigMax ≤ stream.length) :
  ZeroByte stream pos ↔ ∃ i < xmlconfigMax, stream.getD (pos + i) 0 = 0
  := by
  rw [ZeroByte, List.mem_iff_getElem?]
  apply exists_congr
  intro i
  rw [List.getElem?_take]
  split_ifs with hi
  · rw [and_iff_right hi, List.getElem?_drop, List.getElem?_eq_getElem (by omega),
      List.getD_eq_getElem _ _ (by omega), Option.some_inj]
  · simp [hi]

/-- The memory for a request after `n` bytes have been received. -/
theorem getD_received (i : ℕ) (hn : n ≤ stream.length) :
  (stream.take n ++ List.replicate (sizeV3 - (stream.take n).length) 0).getD i 0 =
    if i < n then stream.getD i 0 else 0
  := by
  have hlen : (stream.take n).length = n := List.length_take_of_le hn
  split_ifs with hi
  · rw [List.getD_append _ _ _ _ (by omega), List.getD_eq_getElem _ _ (by omega),
      List.getD_eq_getElem _ _ (by omega), List.getElem_take]
  · rw [List.getD_append_right _ _ _ _ (by omega)]
    simp [List.getD]

/-- An array of a received request has a zero byte when it has not been received to its end, or
when the client has put one there. -/
theorem zero_mem_received_iff (pos : ℕ) (hn : n ≤ stream.length) :
  0 ∈ (Protocol.arrayAt (stream.take n ++
      List.replicate (sizeV3 - (stream.take n).length) 0) pos).toList ↔
    n < pos + xmlconfigMax ∨ ZeroByte stream pos
  := by
  simp only [zero_mem_arrayAt_iff, getD_received _ hn]
  rcases Nat.lt_or_ge n (pos + xmlconfigMax) with hlt | hge
  · apply iff_of_true
    · use xmlconfigMax - 1, by decide
      rw [if_neg]
      rw [xmlconfigMax] at hlt ⊢
      omega
    · exact Or.inl hlt
  · rw [or_iff_right (by omega), zeroByte_iff (by omega)]
    apply exists_congr
    intro i
    apply and_congr_right
    intro hi
    rw [if_pos (by omega)]

end Framing

namespace Renderd

open Framing Transition RenderThread

/-! ### One request -/

theorem readsInside_iff (req : Protocol) :
  req.ReadsInside ↔ req.Terminated
  := by
  have hiff : ∀ (a : XmlconfigArray) (l : List UInt8),
      (Bytes.cString (a.toList ++ l)).length < xmlconfigMax ↔ 0 ∈ a.toList := by
    intro a l
    constructor
    · intro h
      by_contra hzero
      have hall : ∀ b ∈ a.toList, decide (b ≠ 0) = true := by
        intro b hb
        apply decide_eq_true
        rintro rfl
        contradiction
      rw [Bytes.cString, List.takeWhile_append_of_pos hall, List.length_append,
        a.toList_length] at h
      omega
    · intro hzero
      have hlt : (Bytes.cString (a.toList ++ l)).length < a.toList.length :=
        Bytes.length_cString_append_lt hzero
      rw [a.toList_length] at hlt
      apply hlt
  have hoptions := hiff req.options []
  rw [List.append_nil] at hoptions
  rw [Protocol.ReadsInside, Protocol.Terminated, Protocol.xmlnameString, Protocol.mimetypeString,
    Protocol.optionsString, hiff, hiff, hoptions]

/-- After the upgrade a request is terminated in the strings that its version does not have. -/
theorem terminated_upgrade_iff {req : Protocol} (hver : knownVersion req.ver = true) :
  (upgrade req).Terminated ↔ req.ver = 1 ∨ 0 ∈ req.xmlname.toList ∧
    (req.ver = 2 ∨ 0 ∈ req.mimetype.toList ∧ 0 ∈ req.options.toList)
  := by
  have hset : 0 ∈ (req.options.set ⟨0, by decide⟩ 0).toList := by
    rw [List.Vector.toList_set]
    apply List.mem_set
    rw [req.options.toList_length]
    decide
  have hmimetype : 0 ∈
      (Bytes.storeString (n := 40) (Bytes.ofString "image/png") req.mimetype).toList :=
    Bytes.zero_mem_storeString
  have hdefault : 0 ∈
      (Bytes.storeString (n := 40) (Bytes.ofString "default") req.xmlname).toList :=
    Bytes.zero_mem_storeString
  rcases knownVersion_cases hver with hone | htwo | hthree
  · simp only [upgrade, hone, Protocol.Terminated, if_true, true_or, iff_true]
    exact ⟨hdefault, hmimetype, hset⟩
  · have h2 : (2 : Int32) ≠ 1 ∧ (2 : Int32) < 3 := by decide
    simp only [upgrade, htwo, h2, if_false, if_true, Protocol.Terminated, true_or, and_true,
      false_or]
    exact ⟨fun h => h.1, fun h => ⟨h, hmimetype, hset⟩⟩
  · have h3 : (3 : Int32) ≠ 1 ∧ (3 : Int32) ≠ 2 ∧ ¬ (3 : Int32) < 3 := by decide
    simp only [upgrade, hthree, h3, if_false, Protocol.Terminated, false_or]

/-- The strings of a request that has been received are terminated after the upgrade exactly when
the client has terminated them. -/
theorem terminated_recvCmd_iff {block : Bool} {stream : List UInt8} {quota quota2 : Option ℕ}
    (h : 0 < (recvCmd block stream quota quota2).ret) :
  (upgrade (recvCmd block stream quota quota2).cmd).Terminated ↔
    TerminatedFrame stream (recvCmd block stream quota quota2).ret
  := by
  obtain ⟨n, heq, hn, hver, hlen⟩ := recvCmd_pos h
  have hsizes : sizeV1 = 20 ∧ sizeV2 = 64 ∧ xmlconfigMax = 41 := ⟨rfl, rfl, rfl⟩
  have hframe := sizeV1_le_frameLength (version stream)
  have hversion : (Framing.received (stream.take n)).ver = version stream := by
    apply ver_received_take _ hn
    omega
  have hxmlname := zero_mem_received_iff 20 hn
  have hmimetype := zero_mem_received_iff 61 hn
  have hoptions := zero_mem_received_iff 102 hn
  change 0 ∈ (Framing.received (stream.take n)).xmlname.toList ↔ _ at hxmlname
  change 0 ∈ (Framing.received (stream.take n)).mimetype.toList ↔ _ at hmimetype
  change 0 ∈ (Framing.received (stream.take n)).options.toList ↔ _ at hoptions
  rw [heq]
  dsimp only
  rw [terminated_upgrade_iff (by rw [hversion]; exact hver), hxmlname, hmimetype, hoptions,
    hversion, TerminatedFrame]
  rcases knownVersion_cases hver with hone | htwo | hthree
  · simp [hone]
  · have hlen2 : frameLength (version stream) = 64 := by
      rw [htwo]
      rfl
    rw [or_iff_right (a := n < 20 + xmlconfigMax) (by omega)]
    simp [htwo]
  · have hlen3 : frameLength (version stream) = 144 := by
      rw [hthree]
      rfl
    have h3 : version stream ≠ 2 := by
      rw [hthree]
      decide
    rw [or_iff_right (a := n < 20 + xmlconfigMax) (by omega), or_iff_right h3, or_iff_right h3]
    apply or_congr_right
    apply and_congr_right
    intro _
    rcases Nat.lt_or_ge n 144 with hlt | hge
    · apply iff_of_true
      · exact ⟨Or.inl (by omega), Or.inl (by omega)⟩
      · left
        omega
    · rw [or_iff_right (a := n < 61 + xmlconfigMax) (by omega),
        or_iff_right (a := n < 102 + xmlconfigMax) (by omega), or_iff_right (by omega)]

/-! ### Runs of the daemon -/

/-- The requests of all items, and the one that is about to be put into an item, have a
property. -/
structure RequestsHave (P : Protocol → Prop) (s : Renderd) : Prop where
  item : ∀ p ∈ s.allocated, P (s.heap p).req
  main : ∀ {r req fd}, s.main = .received r req fd → P (upgrade req)

namespace RequestsHave

variable {P : Protocol → Prop} {maps : List XmlMapConfig} {s s' : Renderd} {v v' : View}
  {chains chains' : ℕ → List Ptr} {a : ThreadStep} {m : Heap}

theorem init :
  RequestsHave P (Renderd.init m)
  := by
  constructor <;> simp [Renderd.init]

/-- A step that leaves the requests of the items as they are, after which the main thread has
not received a request that it had not received before. -/
theorem of_req (hp : RequestsHave P s) (hallocated : ∀ p ∈ s'.allocated, p ∈ s.allocated)
    (hreq : ∀ p ∈ s.allocated, (s'.heap p).req = (s.heap p).req)
    (hmain : ∀ {r req fd}, s'.main = .received r req fd → s.main = .received r req fd) :
  RequestsHave P s'
  := by
  constructor
  case item =>
    intro p hmem
    rw [hreq p (hallocated p hmem)]
    apply hp.item p (hallocated p hmem)
  case main =>
    intro r req fd h
    apply hp.main (hmain h)

/-- The request of an item that is added is the one that has been received. -/
theorem add {request : ℕ} {req : Protocol} {fd : ℤ} {n : ℕ} {item : Item}
    {r : RequestQueue.Added} (hp : RequestsHave P s) (hmain : s.main = .received request req fd)
    (hitem : item = newItem (s.heap (.item n)) (upgrade req) fd)
    (ho : RequestQueue.AddOutcome (s.queue.queue.write n item) v n r v') :
  RequestsHave P (s.afterAdd request (upgrade req) fd n r)
  := by
  constructor
  case item =>
    intro p hmem
    dsimp only [heap, afterAdd] at hmem ⊢
    by_cases hpn : p = .item n
    · subst hpn
      have hreq : (r.queue.heap (.item n)).req = upgrade req := by
        rcases ho.content_self with h | h
        · rw [Item.req_congr h, RequestQueue.heap_write_self, hitem]
          rfl
        · have hcontent := congrArg Content.req h
          rw [RequestQueue.heap_write_self, hitem] at hcontent
          apply hcontent
      rw [hreq]
      apply hp.main hmain
    · have hmem' : p ∈ s.allocated := by
        split at hmem
        · apply hmem
        · apply (List.mem_cons.mp hmem).resolve_left hpn
      rw [Item.req_congr (ho.content_of_ne hpn), RequestQueue.heap_write_of_ne hpn]
      apply hp.item p hmem'
  case main =>
    intro r' req' fd' h
    dsimp only [afterAdd] at h
    split at h <;> simp at h

/-- Every step keeps the property when the requests that are received have it. -/
theorem effect (hp : RequestsHave P s) (he : Effect maps s v chains a s' v' chains')
    (hreceive : ∀ {fd req}, a = .receive fd req → P (upgrade req)) :
  RequestsHave P s'
  := by
  cases he with
  | accept => exact hp.of_req (fun _ => id) (fun _ _ => rfl) (by simp)
  | receive =>
      use hp.item
      intro r req' fd' h
      obtain ⟨-, rfl, rfl⟩ := MainThread.received.inj h
      apply hreceive rfl
  | refuse => exact hp.of_req (fun _ => id) (fun _ _ => rfl) (by simp)
  | add hmain hcmd hfree hitem hadded ho => exact hp.add hmain hitem ho
  | sendNotDone => exact hp.of_req (fun _ => id) (fun _ _ => rfl) (by simp)
  | @clear fd conn q' hmain hopen hheap =>
      have hreq : ∀ p ∈ s.allocated, (q'.heap p).req = (s.heap p).req := by
        intro p _
        rw [hheap]
        split <;> rfl
      exact hp.of_req (fun _ => id) hreq (by simp)
  | close => exact hp.of_req (fun _ => id) (fun _ _ => rfl) (by simp)
  | fetch =>
      exact hp.of_req (fun _ => id) (fun _ _ => Item.req_congr RequestQueue.content_fetchFrom) id
  | finish hworker hmem hresponses hq =>
      exact hp.of_req (fun _ => id)
        (fun _ _ => Item.req_congr (RequestQueue.content_removeRequest hq)) id
  | respondEnd => exact hp.of_req (fun _ => id) (fun _ _ => rfl) id
  | respond =>
      rw [sendItem_eq]
      exact hp.of_req (fun _ => List.mem_of_mem_erase) (fun _ _ => rfl) id

/-- In every run in which the requests that are received have the property. -/
theorem reach {ok : Renderd → ThreadStep → Prop} (h : Reach (step maps) ok (Renderd.init m) s)
    (hreceive : ∀ {s fd req}, ok s (.receive fd req) → P (upgrade req)) :
  (∃ v chains, Coherent s v chains) ∧ RequestsHave P s
  := by
  apply h.invariant ⟨⟨_, _, coherent_init⟩, RequestsHave.init⟩
  rintro t a u ⟨⟨v, chains, hc⟩, hp⟩ hok hstep
  obtain ⟨v', chains', he, hc'⟩ := step_effect hc hstep
  use ⟨v', chains', hc'⟩
  apply hp.effect he
  rintro fd req rfl
  apply hreceive hok

end RequestsHave

/-- The step does not receive a request, or it receives a frame whose strings are terminated. -/
def ReceivesTerminated (_ : Renderd) : ThreadStep → Prop
  | .receive _ req => ∃ block stream quota quota2,
      0 < (recvCmd block stream quota quota2).ret ∧ (recvCmd block stream quota quota2).cmd = req ∧
        TerminatedFrame stream (recvCmd block stream quota quota2).ret
  | _ => True

variable {maps : List XmlMapConfig} {m : Heap} {s : Renderd}

/-- In every run in which the frames that are received have terminated strings, so have the items
of the daemon. -/
theorem reach_terminated (h : Reach (step maps) ReceivesTerminated (init m) s) :
  RequestsHave Protocol.Terminated s
  := by
  obtain ⟨-, hp⟩ := RequestsHave.reach (P := Protocol.Terminated) h (by
    rintro s fd req ⟨block, stream, quota, quota2, hret, rfl, hframe⟩
    apply (terminated_recvCmd_iff hret).mpr hframe)
  apply hp

/-- The strings of a request end within their arrays after the upgrade exactly when the client has
terminated the strings of its version, and in every run in which all frames are like that, the
string functions stay within the arrays of all items. -/
theorem received_terminated (block : Bool) (stream : List UInt8) (quota quota2 : Option ℕ)
    (maps : List XmlMapConfig) (m : Heap) (s : Renderd) :
  (0 < (recvCmd block stream quota quota2).ret →
      ((upgrade (recvCmd block stream quota quota2).cmd).Terminated ↔
        TerminatedFrame stream (recvCmd block stream quota quota2).ret)) ∧
    (Reach (step maps) ReceivesTerminated (init m) s →
      ∀ p ∈ s.allocated, (s.heap p).req.Terminated ∧ (s.heap p).req.ReadsInside)
  := by
  constructor
  · intro h
    apply terminated_recvCmd_iff h
  · intro h p hp
    have hterminated := (reach_terminated h).item p hp
    use hterminated
    apply (readsInside_iff _).mpr hterminated

/-- What the daemon receives for the frame of a request. -/
def sampleReceive (req : Protocol) : Result :=
  recvCmd true (frame req 0) (some 0) (some 0)

/-- A client connects, and its request is put into the queue. -/
def sampleQueued (req : Protocol) : List ThreadStep :=
  [.accept 5, .receive 5 (sampleReceive req).cmd, .rxRequest (some 0)]

/-- No request but the given one is received. -/
def receivesOnly (req : Protocol) : ThreadStep → Bool
  | .receive _ req' => req' = (sampleReceive req).cmd
  | _ => true

theorem receivesTerminated_of_receivesOnly {req : Protocol} {a : ThreadStep}
    (hret : 0 < (sampleReceive req).ret)
    (hframe : TerminatedFrame (frame req 0) (sampleReceive req).ret)
    (ha : receivesOnly req a = true) :
  ReceivesTerminated s a
  := by
  cases a with
  | receive fd req' =>
      exact ⟨true, frame req 0, some 0, some 0, hret, (of_decide_eq_true ha).symm, hframe⟩
  | _ => trivial

/-- A request with zero bytes as strings is terminated when it is received and in the queue. -/
theorem received_terminated_sample :
  (upgrade (sampleReceive (sampleRequest 1 (.replicate _ 0))).cmd).Terminated ∧
    ∃ s, run (step [sampleMap]) (fun _ => receivesOnly (sampleRequest 1 (.replicate _ 0)))
        sampleInit (sampleQueued (sampleRequest 1 (.replicate _ 0))) = some s ∧
      .item 0 ∈ s.allocated ∧ (s.heap (.item 0)).req.Terminated ∧
      (s.heap (.item 0)).req.ReadsInside
  := by
  have hret : 0 < (sampleReceive (sampleRequest 1 (.replicate _ 0))).ret := by
    decide +kernel
  have hframe : TerminatedFrame (frame (sampleRequest 1 (.replicate _ 0)) 0)
      (sampleReceive (sampleRequest 1 (.replicate _ 0))).ret := by
    decide +kernel
  have hrun : (run (step [sampleMap])
      (fun _ => receivesOnly (sampleRequest 1 (.replicate _ 0))) sampleInit
      (sampleQueued (sampleRequest 1 (.replicate _ 0)))).map (fun s => s.allocated) =
        some [.item 0] := by
    decide +kernel
  obtain ⟨s, hs, hallocated⟩ := Option.map_eq_some_iff.mp hrun
  have hmem : .item 0 ∈ s.allocated := by
    rw [hallocated]
    apply List.mem_singleton_self
  have hreach : Reach (step [sampleMap]) ReceivesTerminated sampleInit s :=
    reach_of_run hs fun _ _ => receivesTerminated_of_receivesOnly hret hframe
  obtain ⟨hiff, hruns⟩ := received_terminated true (frame (sampleRequest 1 (.replicate _ 0)) 0)
    (some 0) (some 0) [sampleMap] _ s
  use (hiff hret).mpr hframe, s, hs, hmem
  exact hruns hreach _ hmem

/-- A request of the given version with no zero byte in its strings. -/
def sampleUnterminated (ver : Int32) : Protocol :=
  { sampleRequest 1 (.replicate _ 97) with
    ver := ver, xmlname := .replicate _ 97, mimetype := .replicate _ 97 }

/-- A request of version 2 is queued with a name that goes on into the next array, where it is
read as 50 bytes, and one of version 3 with no zero byte in any of its strings. -/
theorem received_not_terminated :
  (sampleReceive (sampleUnterminated 2)).ret = 64 ∧
    (run (step [sampleMap]) (fun _ _ => true) sampleInit (sampleQueued (sampleUnterminated 2))).map
        (fun s => s.allocated.map fun p => (decide (0 ∈ (s.heap p).req.xmlname.toList),
          (s.heap p).req.xmlnameString.length)) = some [(false, 50)] ∧
    (sampleReceive (sampleUnterminated 3)).ret = 144 ∧
    (run (step [sampleMap]) (fun _ _ => true) sampleInit (sampleQueued (sampleUnterminated 3))).map
        (fun s => s.allocated.map fun p => (decide (0 ∈ (s.heap p).req.xmlname.toList),
          decide (0 ∈ (s.heap p).req.mimetype.toList),
          decide (0 ∈ (s.heap p).req.options.toList))) = some [(false, false, false)]
  := by
  decide +kernel

end Renderd
