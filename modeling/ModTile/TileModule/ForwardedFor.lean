import ModTile.Bytes.CString
import ModTile.Bytes.Strtok
import ModTile.TileModule.DelayPool

/-!
# The address of a client behind proxies

The first part of `delay_allowed` of `mod_tile.c`.  When the server is told to, it takes the
address of the client from the header `X-Forwarded-For`, in which every proxy has added an entry:
the first entry is the client, and the last one what the proxy next to the server has seen.

The header is cut into its entries by `apr_strtok`.  A header without entries gives no address,
and the function goes on with a null pointer.
-/

namespace DelayPool

/-- The values of `enable_tile_throttling_xforward` that the directive
`ModTileEnableTileThrottlingXForward` accepts. -/
def enableThrottlingXforward (n : Int32) : Bool :=
  !(n < 0 || n > 2)

/-- The characters of `", "`. -/
def isSeparator (c : UInt8) : Bool :=
  c = 44 || c = 32

/-- The loop that goes on to the last entry, where `ipAddr` is the last one found so far and
`strtokState` is where `apr_strtok` goes on. -/
def lastEntry (ipAddr strtokState : List UInt8) : List UInt8 :=
  match _h : Bytes.strtok isSeparator strtokState with
  | none => ipAddr
  | some (tmp, strtokState) => lastEntry tmp strtokState
termination_by strtokState.length
decreasing_by
  apply Bytes.length_lt_of_strtok _h

/-- The string that is passed to `inet_pton`, or `none` for a null pointer. -/
def ipAddr (xforward : Int32) (useragentIp : List UInt8) (header : Option (List UInt8)) :
    Option (List UInt8) :=
  if xforward ≠ 0 then
    match header with
    | none => some useragentIp
    | some ipAddrs =>
        match Bytes.strtok isSeparator ipAddrs with
        | none => none
        | some (tmp, strtokState) =>
            if xforward = 2 then some (lastEntry tmp strtokState) else some tmp
  else some useragentIp

/-- The address that a string is, where `inetPton4` and `inetPton6` are `inet_pton` for the two
kinds of addresses. -/
def readAddress (inetPton4 : List UInt8 → Option UInt32) (inetPton6 : List UInt8 → Option In6Addr)
    (ipAddr : List UInt8) : Option Address :=
  match inetPton4 ipAddr with
  | some sAddr => some (.v4 sAddr)
  | none => (inetPton6 ipAddr).map .v6

/-- The call of a process for a request, if a string is passed to `inet_pton`. -/
def requestAction (inetPton4 : List UInt8 → Option UInt32)
    (inetPton6 : List UInt8 → Option In6Addr) (xforward : Int32) (useragentIp : List UInt8)
    (header : Option (List UInt8)) (missing : Bool) (i : ℕ) : Option Action :=
  (ipAddr xforward useragentIp header).map fun ipAddr =>
    .enter i (readAddress inetPton4 inetPton6 ipAddr) missing

/-- The entries of the header. -/
def entries (header : Option (List UInt8)) : List (List UInt8) :=
  header.elim [] (Bytes.tokensOn isSeparator)

/-- The address that the server is told to use: that of the connection, the first entry or the
last one, and that of the connection when there are no entries. -/
def clientAddress (xforward : Int32) (useragentIp : List UInt8) (header : Option (List UInt8)) :
    List UInt8 :=
  if xforward = 0 then useragentIp
  else if xforward = 1 then (entries header).headD useragentIp
  else (entries header).getLastD useragentIp

variable {xforward : Int32} {useragentIp : List UInt8} {header : Option (List UInt8)}

/-- The loop finds the last of the entries. -/
theorem lastEntry_eq (ipAddr strtokState : List UInt8) :
  lastEntry ipAddr strtokState = (Bytes.tokensOn isSeparator strtokState).getLastD ipAddr
  := by
  fun_induction lastEntry ipAddr strtokState with
  | case1 ipAddr strtokState h =>
      rw [Bytes.tokensOn_of_strtok_eq_none h]
      rfl
  | case2 ipAddr strtokState tmp strtokState' h ih =>
      rw [ih, Bytes.tokensOn_of_strtok_eq_some h, List.getLastD_cons]

/-- The modes that are accepted. -/
theorem eq_of_enableThrottlingXforward (h : enableThrottlingXforward xforward = true) :
  xforward = 0 ∨ xforward = 1 ∨ xforward = 2
  := by
  simp only [enableThrottlingXforward, Bool.not_eq_true', Bool.or_eq_false_iff,
    decide_eq_false_iff_not, Int32.not_lt, Int32.le_iff_toInt_le, gt_iff_lt] at h
  obtain ⟨hnonneg, hle⟩ := h
  simp only [← Int32.toInt_inj]
  rw [show (0 : Int32).toInt = 0 from rfl] at hnonneg ⊢
  rw [show (2 : Int32).toInt = 2 from rfl] at hle ⊢
  rw [show (1 : Int32).toInt = 1 from rfl]
  omega

/-- The header has no entry. -/
theorem ipAddr_of_nil {ipAddrs : List UInt8} (hx : xforward ≠ 0)
    (h : Bytes.tokensOn isSeparator ipAddrs = []) :
  ipAddr xforward useragentIp (some ipAddrs) = none
  := by
  rw [ipAddr, if_pos hx]
  split
  · rfl
  · rename_i hstrtok
    rw [Bytes.tokensOn_of_strtok_eq_some hstrtok] at h
    contradiction

/-- The header has an entry. -/
theorem ipAddr_of_ne_nil {ipAddrs : List UInt8} (hx : xforward = 1 ∨ xforward = 2)
    (h : Bytes.tokensOn isSeparator ipAddrs ≠ []) :
  ipAddr xforward useragentIp (some ipAddrs) =
    some (clientAddress xforward useragentIp (some ipAddrs))
  := by
  cases hstrtok : Bytes.strtok isSeparator ipAddrs with
  | none =>
      apply absurd _ h
      apply Bytes.tokensOn_of_strtok_eq_none hstrtok
  | some result =>
      obtain ⟨tmp, strtokState⟩ := result
      have htokens := Bytes.tokensOn_of_strtok_eq_some hstrtok
      rcases hx with rfl | rfl
      · simp [ipAddr, hstrtok, clientAddress, entries, htokens]
      · rw [clientAddress, if_neg (by decide), if_neg (by decide), entries, Option.elim, htokens,
          List.getLastD_cons, ← lastEntry_eq]
        simp [ipAddr, hstrtok]

/-- When the header is not used, is missing or has an entry, the address that the server is told
to use is passed to `inet_pton`. -/
theorem ipAddr_of_entries (h : enableThrottlingXforward xforward = true)
    (hheader : xforward = 0 ∨ header = none ∨ entries header ≠ []) :
  ipAddr xforward useragentIp header = some (clientAddress xforward useragentIp header)
  := by
  rcases eq_of_enableThrottlingXforward h with rfl | hx
  · simp [ipAddr, clientAddress]
  · cases header with
    | none => rcases hx with rfl | rfl <;> simp [ipAddr, clientAddress, entries]
    | some ipAddrs =>
        apply ipAddr_of_ne_nil hx
        rcases hheader with rfl | hnone | hentries
        · rcases hx with hx | hx <;> contradiction
        · contradiction
        · apply hentries

/-- The pool is entered with the address that the server is told to use. -/
theorem requestAction_of_entries {inetPton4 : List UInt8 → Option UInt32}
    {inetPton6 : List UInt8 → Option In6Addr} {missing : Bool} {i : ℕ}
    (h : enableThrottlingXforward xforward = true)
    (hheader : xforward = 0 ∨ header = none ∨ entries header ≠ []) :
  requestAction inetPton4 inetPton6 xforward useragentIp header missing i =
    some (.enter i (readAddress inetPton4 inetPton6
      (clientAddress xforward useragentIp header)) missing)
  := by
  rw [requestAction, ipAddr_of_entries h hheader, Option.map_some]

/-- A string is passed to `inet_pton` exactly when the header is not used, is missing or has an
entry, and it is then the address that the server is told to use. -/
theorem ipAddr_eq_iff (h : enableThrottlingXforward xforward = true) :
  (ipAddr xforward useragentIp header = some (clientAddress xforward useragentIp header) ↔
      xforward = 0 ∨ header = none ∨ entries header ≠ []) ∧
    (ipAddr xforward useragentIp header = none ↔
      ¬ (xforward = 0 ∨ header = none ∨ entries header ≠ []))
  := by
  have hbad : ¬ (xforward = 0 ∨ header = none ∨ entries header ≠ []) →
      ipAddr xforward useragentIp header = none := by
    intro hnot
    rw [not_or, not_or, not_not] at hnot
    obtain ⟨hx, hheader, hentries⟩ := hnot
    obtain ⟨ipAddrs, rfl⟩ := Option.ne_none_iff_exists'.mp hheader
    apply ipAddr_of_nil hx hentries
  refine ⟨⟨?_, ipAddr_of_entries h⟩, ⟨?_, hbad⟩⟩
  · intro hsome
    by_contra hnot
    rw [hbad hnot] at hsome
    contradiction
  · intro hnone hheader
    rw [ipAddr_of_entries h hheader] at hnone
    contradiction

/-- The last entry of a chain of two proxies is used. -/
theorem ipAddr_eq_iff_chain :
  ipAddr 2 (Bytes.ofString "10.0.0.1") (some (Bytes.ofString "1.2.3.4, 5.6.7.8")) =
      some (Bytes.ofString "5.6.7.8") ∧
    enableThrottlingXforward 2 = true
  := by
  have haccepted : enableThrottlingXforward 2 = true := by decide
  have hentries : entries (some (Bytes.ofString "1.2.3.4, 5.6.7.8")) =
      [Bytes.ofString "1.2.3.4", Bytes.ofString "5.6.7.8"] := by
    decide +kernel
  refine ⟨?_, haccepted⟩
  rw [(ipAddr_eq_iff haccepted).1.mpr]
  · rw [clientAddress, hentries]
    rfl
  · right
    right
    rw [hentries]
    simp

/-- A header that is empty, or has separators only, gives a null pointer. -/
theorem ipAddr_null :
  ipAddr 1 (Bytes.ofString "10.0.0.1") (some []) = none ∧
    ipAddr 2 (Bytes.ofString "10.0.0.1") (some (Bytes.ofString ", ")) = none
  := ⟨rfl, rfl⟩

end DelayPool
