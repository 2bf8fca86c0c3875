import Mathlib.Data.List.Basic

/-!
# Reading in pieces

A call of `read` may deliver fewer bytes than it was asked for.  `readLoop` calls it again
until all the bytes have arrived, the file ends or a call fails.  How much each call delivers
is given by a function of the number of the call: `none` is a failure, and `some n` delivers
`n` bytes, but at least one and not more than were asked for and there are.
-/

namespace Bytes

/-- The number of bytes that a call of `read` delivers. -/
def readCount (quota len available : ℕ) : ℕ :=
  min (max 1 quota) (min len available)

/-- The bytes that were read, whether a call failed, and the number of the next call. -/
structure ReadRun where
  data : List UInt8
  failed : Bool
  next : ℕ

/-- Reading `len` bytes from `file`, where `call` is the number of the next call of `read`. -/
def readLoop (delivery : ℕ → Option ℕ) (call : ℕ) (file : List UInt8) (len : ℕ) : ReadRun :=
  if _hlen : len = 0 then ⟨[], false, call⟩
  else
    match delivery call with
    | none => ⟨[], true, call + 1⟩
    | some quota =>
        if hgot : readCount quota len file.length = 0 then ⟨[], false, call + 1⟩
        else
          let got := readCount quota len file.length
          let r := readLoop delivery (call + 1) (file.drop got) (len - got)
          ⟨file.take got ++ r.data, r.failed, r.next⟩
termination_by len
decreasing_by
  omega

/-- One call of `read` goes on with the bytes of the file. -/
theorem append_readCount {file data : List UInt8} {len : ℕ} (quota : ℕ)
    (h : data = file.take data.length) (hlen : data.length ≤ len) :
  ∃ n, n ≤ len ∧ n ≤ file.length ∧
    data ++ (file.drop data.length).take
      (readCount quota (len - data.length) (file.drop data.length).length) = file.take n
  := by
  have hfile : data.length ≤ file.length := by
    rw [h, List.length_take]
    apply Nat.min_le_right
  refine ⟨data.length + readCount quota (len - data.length) (file.drop data.length).length,
    ?_, ?_, ?_⟩
  · rw [readCount]
    omega
  · rw [readCount, List.length_drop]
    omega
  · rw [List.take_add, ← h]

/-- A call that delivers nothing has found the end of the file. -/
theorem length_le_of_readCount {file : List UInt8} {quota len pos : ℕ} (hlen : pos < len)
    (h : readCount quota (len - pos) (file.drop pos).length = 0) :
  file.length ≤ pos
  := by
  rw [readCount, List.length_drop] at h
  omega

/-- If no call fails, the bytes are read however they are delivered. -/
theorem readLoop_spec {delivery : ℕ → Option ℕ} (h : ∀ call, delivery call ≠ none) (call : ℕ)
    (file : List UInt8) (len : ℕ) :
  (readLoop delivery call file len).data = file.take len ∧
    (readLoop delivery call file len).failed = false
  := by
  fun_induction readLoop delivery call file len with
  | case1 call file => simp
  | case2 call file len hlen hfail => exact absurd hfail (h call)
  | case3 call file len hlen quota hquota hgot =>
      have hempty : file.length = 0 := by
        rw [readCount] at hgot
        omega
      simp [List.eq_nil_of_length_eq_zero hempty]
  | case4 call file len hlen quota hquota hgot got r ih =>
      obtain ⟨hdata, hfailed⟩ := ih
      have hle : got ≤ len := by
        simp only [got, readCount]
        omega
      constructor
      · have hsum : len = got + (len - got) := (Nat.add_sub_cancel' hle).symm
        dsimp only [r]
        rw [hdata, hsum, List.take_add, Nat.add_sub_cancel_left]
      · apply hfailed

end Bytes
