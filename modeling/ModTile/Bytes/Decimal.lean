import Mathlib.Data.List.Basic
import Mathlib.Data.List.TakeWhile
import Mathlib.Data.Nat.Digits.Lemmas

/-!
# Decimal numbers in text

`decimal` and `signed` are what `printf` writes for the conversions `%u` and `%d`, and
`scanInt` is what `scanf` does for `%d`: it skips white space, takes a sign and as many
digits as there are, and fails without a digit.  `strtol` does the same.  A number that is
written is read back when something else than a digit follows it.  `integer` is the number that
a whole text is, however large it may be.
-/

namespace Bytes

/-- The character for a digit. -/
def digit (d : ℕ) : UInt8 := UInt8.ofNat (48 + d)

/-- The characters from `0` to `9`. -/
def isDigit (c : UInt8) : Bool := 48 ≤ c && c ≤ 57

/-- The characters that count as white space. -/
def isSpace (c : UInt8) : Bool := c = 32 || 9 ≤ c && c ≤ 13

/-- The decimal digits of a number. -/
def decimal (n : ℕ) : List UInt8 :=
  if n = 0 then [digit 0] else (Nat.digits 10 n).reverse.map digit

/-- The decimal digits of a number, after a sign if it is negative. -/
def signed (z : ℤ) : List UInt8 :=
  if z < 0 then 45 :: decimal z.natAbs else decimal z.natAbs

/-- The number with the given digits. -/
def value (s : List UInt8) : ℕ :=
  s.foldl (fun n c => 10 * n + (c.toNat - 48)) 0

/-- Whether the text starts with a minus sign, and the text after the sign. -/
def scanSign : List UInt8 → Bool × List UInt8
  | 45 :: s => (true, s)
  | 43 :: s => (false, s)
  | s => (false, s)

/-- The digits at the start of the text as a number, and the text after them. -/
def scanDigits (s : List UInt8) : Option (ℕ × List UInt8) :=
  if s.takeWhile isDigit = [] then none
  else some (value (s.takeWhile isDigit), s.dropWhile isDigit)

/-- The number at the start of the text, and the text after it. -/
def scanInt (s : List UInt8) : Option (ℤ × List UInt8) :=
  let (negative, s) := scanSign (s.dropWhile isSpace)
  (scanDigits s).map fun (n, rest) => (if negative then -n else n, rest)

/-- What `strtol` returns for a text: the number at its start, or the nearest one that has
64 bits, and the text after it.  A text without a number is left as it is. -/
def strtol (s : List UInt8) : ℤ × List UInt8 :=
  match scanInt s with
  | none => (0, s)
  | some (n, rest) => (max (-2 ^ 63) (min n (2 ^ 63 - 1)), rest)

/-- The number that a whole text is. -/
def integer (s : List UInt8) : Option ℤ :=
  match scanInt s with
  | some (n, []) => some n
  | _ => none

/-- The text does not go on with a digit. -/
def EndsNumber (s : List UInt8) : Prop :=
  ∀ c ∈ s.head?, isDigit c = false

variable {n d : ℕ} {c : UInt8} {s : List UInt8}

theorem toNat_digit (h : d < 10) :
  (digit d).toNat = 48 + d
  := by
  rw [digit, UInt8.toNat_ofNat_of_lt']
  apply Nat.lt_of_lt_of_le (Nat.add_lt_add_left h 48)
  decide

theorem isDigit_digit (h : d < 10) :
  isDigit (digit d) = true
  := by
  simp only [isDigit, Bool.and_eq_true, decide_eq_true_eq, UInt8.le_iff_toNat_le, toNat_digit h]
  constructor
  · apply Nat.le_add_right
  · apply Nat.add_le_add_left (Nat.le_of_lt_succ h) 48

/-- The characters of a number are digits. -/
theorem isDigit_of_mem_decimal (h : c ∈ decimal n) :
  isDigit c = true
  := by
  rw [decimal] at h
  split at h
  · obtain rfl := List.mem_singleton.mp h
    rfl
  · obtain ⟨d, hd, rfl⟩ := List.mem_map.mp h
    apply isDigit_digit
    apply Nat.digits_lt_base (by decide) (List.mem_reverse.mp hd)

theorem decimal_ne_nil :
  decimal n ≠ []
  := by
  rw [decimal]
  split
  · simp
  · rename_i h
    simpa using Nat.digits_ne_nil_iff_ne_zero.mpr h

/-- The digits of a number have its value. -/
theorem value_decimal :
  value (decimal n) = n
  := by
  rw [decimal]
  split
  · rename_i h
    rw [h]
    rfl
  · rw [value, List.foldl_map, List.foldl_reverse]
    nth_rewrite 2 [← Nat.ofDigits_digits 10 n]
    rw [Nat.ofDigits_eq_foldr]
    apply List.foldr_ext
    intro d hd m
    rw [toNat_digit (Nat.digits_lt_base (by decide) hd), Nat.add_sub_cancel_left, Nat.add_comm]
    rfl

theorem decimal_injective :
  Function.Injective decimal
  := Function.LeftInverse.injective fun _ => value_decimal

/-- A number below a power of ten has at most that many digits. -/
theorem length_decimal_le {k : ℕ} (hk : 0 < k) (h : n < 10 ^ k) :
  (decimal n).length ≤ k
  := by
  rw [decimal]
  split_ifs
  · apply hk
  · rw [List.length_map, List.length_reverse]
    apply (Nat.digits_length_le_iff (by decide) n).mpr h

theorem scanSign_of_isDigit (h : isDigit c = true) :
  scanSign (c :: s) = (false, c :: s)
  := by
  rw [scanSign]
  · intro s hs
    obtain ⟨rfl, rfl⟩ := hs
    simp [isDigit] at h
  · intro s hs
    obtain ⟨rfl, rfl⟩ := hs
    simp [isDigit] at h

theorem isSpace_of_isDigit (h : isDigit c = true) :
  isSpace c = false
  := by
  simp only [isDigit, Bool.and_eq_true, decide_eq_true_eq, UInt8.le_iff_toNat_le,
    UInt8.reduceToNat] at h
  simp only [isSpace, Bool.or_eq_false_iff, decide_eq_false_iff_not, Bool.and_eq_false_iff,
    UInt8.le_iff_toNat_le, ← UInt8.toNat_inj, UInt8.reduceToNat]
  omega

/-- The digits are those of the number that has been written. -/
theorem scanDigits_decimal (hs : EndsNumber s) :
  scanDigits (decimal n ++ s) = some (n, s)
  := by
  have hrest : s.takeWhile isDigit = [] ∧ s.dropWhile isDigit = s := by
    cases s with
    | nil => simp
    | cons c s =>
        have hc := hs c rfl
        simp [hc]
  have htake : (decimal n ++ s).takeWhile isDigit = decimal n := by
    rw [List.takeWhile_append_of_pos fun c => isDigit_of_mem_decimal, hrest.1, List.append_nil]
  have hdrop : (decimal n ++ s).dropWhile isDigit = s := by
    rw [List.dropWhile_append_of_pos fun c => isDigit_of_mem_decimal, hrest.2]
  rw [scanDigits, htake, hdrop, if_neg decimal_ne_nil, value_decimal]

/-- A number is read back when no digit follows it. -/
theorem scanInt_decimal (hs : EndsNumber s) :
  scanInt (decimal n ++ s) = some ((n : ℤ), s)
  := by
  obtain ⟨a, r, hr⟩ := List.exists_cons_of_ne_nil (decimal_ne_nil (n := n))
  have ha : isDigit a = true := by
    apply isDigit_of_mem_decimal (n := n)
    rw [hr]
    apply List.mem_cons_self
  have hspace : (decimal n ++ s).dropWhile isSpace = decimal n ++ s := by
    rw [hr, List.cons_append, List.dropWhile_cons_of_neg (by simp [isSpace_of_isDigit ha])]
  have hsign : scanSign (decimal n ++ s) = (false, decimal n ++ s) := by
    rw [hr, List.cons_append, scanSign_of_isDigit ha]
  simp only [scanInt, hspace, hsign, scanDigits_decimal hs, Option.map_some,
    Bool.false_eq_true, if_false]

/-- A number with a sign is read back when no digit follows it. -/
theorem scanInt_signed {z : ℤ} (hs : EndsNumber s) :
  scanInt (signed z ++ s) = some (z, s)
  := by
  rw [signed]
  split
  · have hspace : (45 :: decimal z.natAbs ++ s).dropWhile isSpace = 45 :: decimal z.natAbs ++ s :=
      List.dropWhile_cons_of_neg (by decide)
    have hsign : scanSign (45 :: decimal z.natAbs ++ s) = (true, decimal z.natAbs ++ s) := rfl
    simp only [scanInt, hspace, hsign, scanDigits_decimal hs, Option.map_some, if_true]
    congr 2
    omega
  · rw [scanInt_decimal hs]
    congr 2
    omega

/-- A number is written with digits and a sign. -/
theorem notMem_signed {z : ℤ} (hdigit : isDigit c = false) (hsign : c ≠ 45) :
  c ∉ signed z
  := by
  have hdecimal : c ∉ decimal z.natAbs := by
    intro hmem
    rw [isDigit_of_mem_decimal hmem] at hdigit
    contradiction
  rw [signed]
  split_ifs
  · rw [List.mem_cons, not_or]
    exact ⟨hsign, hdecimal⟩
  · apply hdecimal

/-- Different numbers are written in different ways. -/
theorem signed_injective :
  Function.Injective signed
  := by
  intro z z' h
  have hscan : ∀ z, scanInt (signed z ++ []) = some (z, []) := fun z =>
    scanInt_signed (by simp [EndsNumber])
  have heq := hscan z
  rw [h, hscan z'] at heq
  exact (Prod.mk.inj (Option.some.inj heq)).1.symm

/-- A text is split in one way at the last place of a separator. -/
theorem append_separator_inj {a : UInt8} {l l' r r' : List UInt8} (hr : a ∉ r) (hr' : a ∉ r')
    (h : l ++ a :: r = l' ++ a :: r') :
  l = l' ∧ r = r'
  := by
  rcases List.append_eq_append_iff.mp h with ⟨m, rfl, hm⟩ | ⟨m, rfl, hm⟩
  · cases m with
    | nil => simpa using hm
    | cons b m =>
        obtain ⟨-, rfl⟩ := List.cons.inj hm
        simp at hr
  · cases m with
    | nil => simpa [eq_comm] using hm
    | cons b m =>
        obtain ⟨-, rfl⟩ := List.cons.inj hm
        simp at hr'

end Bytes
