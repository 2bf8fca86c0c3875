import Mathlib.Data.List.TakeWhile
import Mathlib.Data.Vector.Basic

/-!
# C strings

A C string is the bytes from an address on up to the first zero byte.  `cString` takes
the string at the start of a stretch of memory, `storeString` is what
`snprintf(dst, sizeof(dst), "%s", src)` leaves in an array, and `strncpy` and `strncat` are what
the functions of these names do.  `samePrefix` is the test `strncmp(a, b, n) == 0`, `tokens`
are the parts that `strtok` finds, and `splitFirst` is a search for a part of a text.
-/

namespace Bytes

/-- The bytes of memory before the first zero byte. -/
def cString (memory : List UInt8) : List UInt8 :=
  memory.takeWhile (· ≠ 0)

/-- The bytes of a string constant with characters below 256. -/
def ofString (s : String) : List UInt8 :=
  s.toList.map fun c => c.toNat.toUInt8

/-- The array `dst` after the string `src` has been printed into it: as many bytes of `src`
as leave room for the terminating zero, the zero, and the old bytes after it. -/
def storeString {n : ℕ} (src : List UInt8) (dst : List.Vector UInt8 (n + 1)) :
    List.Vector UInt8 (n + 1) :=
  ⟨src.take n ++ 0 :: dst.toList.drop ((src.take n).length + 1), by
    have h := dst.toList_length
    simp only [List.length_append, List.length_take, List.length_cons, List.length_drop, h]
    omega⟩

/-- The array `dst` after `strncpy(dst, src, n)`: the first `n` bytes of `src`, or all of `src`
and zeros up to `n` bytes, and the old bytes after them. -/
def strncpy {n k : ℕ} (src : List UInt8) (dst : List.Vector UInt8 (n + k)) :
    List.Vector UInt8 (n + k) :=
  ⟨src.take n ++ (List.replicate (n - src.length) 0 ++ dst.toList.drop n), by
    have h := dst.toList_length
    simp only [List.length_append, List.length_take, List.length_replicate, List.length_drop, h]
    omega⟩

/-- The string in an array of `size` bytes after `strncat(dst, src, n)`: at most `n` bytes of
`src` are added.  There is no result when the array has no room for them and for the zero
byte. -/
def strncat (size n : ℕ) (dst src : List UInt8) : Option (List UInt8) :=
  if (dst ++ src.take n).length < size then some (dst ++ src.take n) else none

/-- The strings agree in their first `n` bytes. -/
def samePrefix (n : ℕ) (a b : List UInt8) : Bool :=
  a.take n = b.take n

/-- The parts of a string between separators that are not empty. -/
def tokens (separator : UInt8) (s : List UInt8) : List (List UInt8) :=
  (s.splitOnP (· = separator)).filter (· ≠ [])

/-- The text before and after the first place where a pattern is. -/
def splitFirst (pattern : List UInt8) : List UInt8 → Option (List UInt8 × List UInt8)
  | [] => if pattern = [] then some ([], []) else none
  | c :: s =>
      if pattern <+: c :: s then some ([], (c :: s).drop pattern.length)
      else (splitFirst pattern s).map fun (before, after) => (c :: before, after)

variable {l l' : List UInt8}

/-- A string is a prefix of another when the two agree in as many bytes as it has. -/
theorem samePrefix_length :
  samePrefix l.length l l' = true ↔ l <+: l'
  := by
  rw [samePrefix, decide_eq_true_eq, List.take_length, List.prefix_iff_eq_take]

/-- A string has no zero bytes. -/
theorem zero_notMem_cString :
  0 ∉ cString l
  := by
  intro h
  simpa using List.mem_takeWhile_imp h

/-- A string without zero bytes, followed by a zero byte, is read back. -/
theorem cString_append_zero (h : 0 ∉ l) :
  cString (l ++ 0 :: l') = l
  := by
  induction l with
  | nil => simp [cString]
  | cons a l ih =>
      simp only [List.mem_cons, not_or] at h
      simp only [cString, List.cons_append] at ih ⊢
      rw [List.takeWhile_cons_of_pos, ih h.2]
      simpa using fun e => h.1 e.symm

/-- What is behind a zero byte does not belong to the string. -/
theorem cString_append_cons_zero :
  cString (l ++ 0 :: l') = cString l
  := by
  induction l with
  | nil => simp [cString]
  | cons a l ih =>
      simp only [cString, List.cons_append, List.takeWhile_cons] at ih ⊢
      rw [ih]

/-- The string in an array is the first bytes of the string that memory from the array on
holds. -/
theorem cString_take :
  cString l = (cString (l ++ l')).take l.length
  := by
  induction l with
  | nil => simp [cString]
  | cons a l ih =>
      simp only [cString, List.cons_append] at ih ⊢
      by_cases ha : a = 0
      · simp [ha]
      · rw [List.takeWhile_cons_of_pos (by simpa using ha),
          List.takeWhile_cons_of_pos (by simpa using ha), List.length_cons, List.take_succ_cons,
          ← ih]

/-- A string that ends within an array is shorter than the array. -/
theorem length_cString_append_lt (h : 0 ∈ l) :
  (cString (l ++ l')).length < l.length
  := by
  induction l with
  | nil => contradiction
  | cons a l ih =>
      by_cases ha : a = 0
      · simp [cString, ha]
      · rw [cString, List.cons_append, List.takeWhile_cons_of_pos (by simpa using ha),
          List.length_cons, List.length_cons]
        apply Nat.succ_lt_succ
        apply ih ((List.mem_cons.mp h).resolve_left (Ne.symm ha))

/-- If one of two strings ends within its array, they are compared within the arrays. -/
theorem cString_append_inj {m m' : List UInt8} (h : 0 ∈ l) (hlen : m.length = l.length) :
  cString (l ++ l') = cString (m ++ m') ↔ cString l = cString m
  := by
  have hlt : (cString (l ++ l')).length < l.length := length_cString_append_lt h
  have hl : cString l = (cString (l ++ l')).take l.length := cString_take
  have hm : cString m = (cString (m ++ m')).take m.length := cString_take
  rw [hl, hm, hlen, List.take_of_length_le hlt.le]
  constructor
  · intro heq
    rw [← heq, List.take_of_length_le hlt.le]
  · intro heq
    have hlength := congrArg List.length heq
    rw [List.length_take] at hlength
    rw [heq, List.take_of_length_le]
    omega

/-- A byte that is no separator is in one of the parts between the separators. -/
theorem exists_mem_splitOnP {p : UInt8 → Bool} {a : UInt8} (ha : p a = false) :
  (∃ t ∈ l.splitOnP p, a ∈ t) ↔ a ∈ l
  := by
  induction l with
  | nil => simp
  | cons c l ih =>
      rw [List.splitOnP_cons_eq_if_modifyHead, List.mem_cons, ← ih]
      obtain ⟨t, ts, hts⟩ := List.exists_cons_of_ne_nil (List.splitOnP_ne_nil p l)
      split_ifs with hc
      · have hne : a ≠ c := by
          rintro rfl
          rw [hc] at ha
          contradiction
        simp [hne]
      · simp [hts, or_assoc]

/-- A byte that is no separator is in one of the parts that are found. -/
theorem exists_mem_tokens {a separator : UInt8} (ha : a ≠ separator) :
  (∃ t ∈ tokens separator l, a ∈ t) ↔ a ∈ l
  := by
  rw [← exists_mem_splitOnP (p := (· = separator)) (by simpa using ha)]
  apply exists_congr
  intro t
  rw [tokens, List.mem_filter, and_assoc]
  apply and_congr_right
  intro _
  constructor
  · intro h
    apply h.2
  · intro h
    exact ⟨by simpa using List.ne_nil_of_mem h, h⟩

section Arrays

variable {n k : ℕ} {src : List UInt8}

/-- A string that is printed into an array is terminated. -/
theorem zero_mem_storeString {dst : List.Vector UInt8 (n + 1)} :
  0 ∈ (storeString src dst).toList
  := by
  simp [storeString]

/-- The string in an array into which one has been printed does not depend on what the array
held. -/
theorem cString_storeString_congr {l' : List UInt8} (dst dst' : List.Vector UInt8 (n + 1)) :
  cString ((storeString src dst).toList ++ l) = cString ((storeString src dst').toList ++ l')
  := by
  simp only [storeString, List.Vector.toList_mk, List.append_assoc, List.cons_append,
    cString_append_cons_zero]

theorem cString_storeString_eq (dst dst' : List.Vector UInt8 (n + 1)) :
  cString (storeString src dst).toList = cString (storeString src dst').toList
  := by
  simp only [storeString, List.Vector.toList_mk, cString_append_cons_zero]

/-- A string that is printed into an array is read back up to the length for which there is
room. -/
theorem cString_storeString_take {dst : List.Vector UInt8 (n + 1)} (hzero : 0 ∉ src) :
  cString ((storeString src dst).toList ++ l) = src.take n
  := by
  simp only [storeString, List.Vector.toList_mk, List.append_assoc, List.cons_append]
  apply cString_append_zero
  intro h
  apply hzero (List.mem_of_mem_take h)

/-- A string that is printed into an array with room for it is read back. -/
theorem cString_storeString {dst : List.Vector UInt8 (n + 1)}
    (hzero : 0 ∉ src) (hlen : src.length ≤ n) :
  cString ((storeString src dst).toList ++ l) = src
  := by
  rw [cString_storeString_take hzero, List.take_of_length_le hlen]

/-- A string that is printed into an array with room for it is what the array holds. -/
theorem cString_toList_storeString {dst : List.Vector UInt8 (n + 1)}
    (hzero : 0 ∉ src) (hlen : src.length ≤ n) :
  cString (storeString src dst).toList = src
  := by
  rw [← List.append_nil (List.Vector.toList _)]
  apply cString_storeString hzero hlen

/-- A string that is shorter than the number of bytes to copy is read back. -/
theorem cString_strncpy {dst : List.Vector UInt8 (n + k)} (hzero : 0 ∉ src)
    (hlen : src.length < n) :
  cString ((strncpy src dst).toList ++ l) = src
  := by
  obtain ⟨d, hd⟩ := Nat.exists_eq_add_of_lt hlen
  have hpad : n - src.length = d + 1 := by omega
  simp only [strncpy, List.Vector.toList_mk, List.append_assoc, hpad, List.replicate_succ,
    List.cons_append]
  rw [List.take_of_length_le hlen.le]
  apply cString_append_zero hzero

/-- A string that is shorter than the number of bytes to copy is terminated. -/
theorem zero_mem_strncpy {dst : List.Vector UInt8 (n + k)} (hlen : src.length < n) :
  0 ∈ (strncpy src dst).toList
  := by
  rw [strncpy, List.Vector.toList_mk, List.mem_append, List.mem_append, List.mem_replicate]
  exact Or.inr (Or.inl ⟨Nat.sub_ne_zero_of_lt hlen, rfl⟩)

/-- A longer string is cut, and no zero byte is added. -/
theorem toList_strncpy {dst : List.Vector UInt8 (n + k)} (hlen : n ≤ src.length) :
  (strncpy src dst).toList = src.take n ++ dst.toList.drop n
  := by
  simp only [strncpy, List.Vector.toList_mk, Nat.sub_eq_zero_of_le hlen, List.replicate_zero,
    List.nil_append]

end Arrays

end Bytes
