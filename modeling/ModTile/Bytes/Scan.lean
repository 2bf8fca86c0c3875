import ModTile.Bytes.Decimal

/-!
# Scanning a stream

`scanNumber` and `scanByte` are the conversion `%d` and a byte in the format of `scanf`, for a text
that is read byte by byte.  A conversion that fails has taken the white space and the sign in front
of it, and what is left starts with the byte at which it failed.

A scan that finds something else than white space in a text does the same when the text goes on
after it, unless it goes on with a digit.
-/

namespace Bytes

variable {text tail blanks s : List UInt8} {c : UInt8} {n : ℤ}

/-- The conversion `%d`: the number if there is one, and the text that is left. -/
def scanNumber (text : List UInt8) : Option ℤ × List UInt8 :=
  let (negative, digits) := scanSign (text.dropWhile isSpace)
  match scanDigits digits with
  | none => (none, digits)
  | some (n, rest) => (some (if negative then -n else n), rest)

/-- A byte in the format: the text after it. -/
def scanByte (c : UInt8) : List UInt8 → Option (List UInt8)
  | [] => none
  | d :: text => if d = c then some text else none

/-- The texts of the decimal integers. -/
inductive IsNumber : List UInt8 → ℤ → Prop
  | unsigned {digits : List UInt8} (hne : digits ≠ []) (h : ∀ c ∈ digits, isDigit c) :
      IsNumber digits (value digits)
  | plus {digits : List UInt8} (hne : digits ≠ []) (h : ∀ c ∈ digits, isDigit c) :
      IsNumber (43 :: digits) (value digits)
  | minus {digits : List UInt8} (hne : digits ≠ []) (h : ∀ c ∈ digits, isDigit c) :
      IsNumber (45 :: digits) (-value digits)

/-! ### Texts that go on -/

theorem scanSign_append (hne : text ≠ []) :
  scanSign (text ++ tail) = ((scanSign text).1, (scanSign text).2 ++ tail)
  := by
  obtain ⟨c, text, rfl⟩ := List.exists_cons_of_ne_nil hne
  by_cases hminus : c = 45
  · rw [hminus]
    rfl
  · by_cases hplus : c = 43
    · rw [hplus]
      rfl
    · have hsign : ∀ l, scanSign (c :: l) = (false, c :: l) := by
        intro l
        rw [scanSign]
        · intro s h
          apply hminus (List.cons.inj h).1
        · intro s h
          apply hplus (List.cons.inj h).1
      rw [List.cons_append, hsign, hsign]
      rfl

theorem scanDigits_append (htail : EndsNumber tail) :
  scanDigits (text ++ tail) = (scanDigits text).map fun (n, rest) => (n, rest ++ tail)
  := by
  have hspan : (text ++ tail).takeWhile isDigit = text.takeWhile isDigit ∧
      (text ++ tail).dropWhile isDigit = text.dropWhile isDigit ++ tail := by
    induction text with
    | nil =>
        cases tail with
        | nil => exact ⟨rfl, rfl⟩
        | cons c tail =>
            have hc : ¬ isDigit c = true := by
              rw [htail c rfl]
              apply Bool.false_ne_true
            rw [List.nil_append, List.takeWhile_cons_of_neg hc, List.dropWhile_cons_of_neg hc]
            exact ⟨rfl, rfl⟩
    | cons c text ih =>
        rw [List.cons_append]
        by_cases hc : isDigit c = true
        · rw [List.takeWhile_cons_of_pos hc, List.takeWhile_cons_of_pos hc,
            List.dropWhile_cons_of_pos hc, List.dropWhile_cons_of_pos hc, ih.1]
          exact ⟨rfl, ih.2⟩
        · rw [List.takeWhile_cons_of_neg hc, List.takeWhile_cons_of_neg hc,
            List.dropWhile_cons_of_neg hc, List.dropWhile_cons_of_neg hc]
          exact ⟨rfl, rfl⟩
  rw [scanDigits, scanDigits, hspan.1, hspan.2]
  split_ifs
  · rfl
  · rfl

/-- White space is skipped. -/
theorem scanNumber_blank (hblanks : ∀ c ∈ blanks, isSpace c) :
  scanNumber (blanks ++ text) = scanNumber text
  := by
  rw [scanNumber, scanNumber, List.dropWhile_append_of_pos hblanks]

/-- A number is looked for in a text that has something else than white space as if nothing
followed. -/
theorem scanNumber_append (hc : c ∈ text) (hspace : ¬ isSpace c) (htail : EndsNumber tail) :
  scanNumber (text ++ tail) = ((scanNumber text).1, (scanNumber text).2 ++ tail)
  := by
  have hne : text.dropWhile isSpace ≠ [] := by
    intro h
    apply hspace (List.dropWhile_eq_nil_iff.mp h c hc)
  have hdrop : (text ++ tail).dropWhile isSpace = text.dropWhile isSpace ++ tail := by
    rw [List.dropWhile_append, if_neg (by simpa using hne)]
  rw [scanNumber, hdrop, scanSign_append hne, scanNumber]
  dsimp only
  rw [scanDigits_append htail]
  cases scanDigits (scanSign (text.dropWhile isSpace)).2 with
  | none => rfl
  | some r => rfl

/-- The text of a number has a digit. -/
theorem IsNumber.exists_isDigit (h : IsNumber s n) :
  ∃ c ∈ s, isDigit c
  := by
  cases h with
  | unsigned hne hall =>
      obtain ⟨c, s, rfl⟩ := List.exists_cons_of_ne_nil hne
      use c, List.mem_cons_self, hall c List.mem_cons_self
  | plus hne hall =>
      obtain ⟨c, s, rfl⟩ := List.exists_cons_of_ne_nil hne
      use c, List.mem_cons_of_mem _ List.mem_cons_self, hall c List.mem_cons_self
  | minus hne hall =>
      obtain ⟨c, s, rfl⟩ := List.exists_cons_of_ne_nil hne
      use c, List.mem_cons_of_mem _ List.mem_cons_self, hall c List.mem_cons_self

/-- The text of a number is read as this number. -/
theorem scanNumber_of_isNumber (h : IsNumber s n) (htail : EndsNumber tail) :
  scanNumber (s ++ tail) = (some n, tail)
  := by
  have hdigits : ∀ {s : List UInt8}, s ≠ [] → (∀ c ∈ s, isDigit c) →
      scanDigits (s ++ tail) = some (value s, tail) := by
    intro s hne hdigits
    have htake : s.takeWhile isDigit = s := List.takeWhile_eq_self_iff.mpr hdigits
    have hdrop : s.dropWhile isDigit = [] := List.dropWhile_eq_nil_iff.mpr hdigits
    rw [scanDigits_append htail, scanDigits, htake, hdrop, if_neg hne]
    rfl
  cases h with
  | unsigned hne hall =>
      obtain ⟨c, s, rfl⟩ := List.exists_cons_of_ne_nil hne
      have hc := hall c List.mem_cons_self
      have hspace : ¬ isSpace c = true := by
        rw [isSpace_of_isDigit hc]
        apply Bool.false_ne_true
      rw [scanNumber, List.cons_append, List.dropWhile_cons_of_neg hspace,
        scanSign_of_isDigit hc, ← List.cons_append]
      dsimp only
      rw [hdigits hne hall]
      rfl
  | @plus s hne hall =>
      have hscan : scanNumber (43 :: s ++ tail) =
          match scanDigits (s ++ tail) with
          | none => (none, s ++ tail)
          | some (n, rest) => (some (n : ℤ), rest) := rfl
      rw [hscan, hdigits hne hall]
  | @minus s hne hall =>
      have hscan : scanNumber (45 :: s ++ tail) =
          match scanDigits (s ++ tail) with
          | none => (none, s ++ tail)
          | some (n, rest) => (some (-n : ℤ), rest) := rfl
      rw [hscan, hdigits hne hall]

theorem scanByte_append (htail : ∀ d ∈ tail.head?, d ≠ c) :
  scanByte c (text ++ tail) = (scanByte c text).map (· ++ tail)
  := by
  cases text with
  | nil =>
      cases tail with
      | nil => rfl
      | cons d tail => exact if_neg (htail d rfl)
  | cons d text =>
      rw [List.cons_append, scanByte, scanByte]
      split_ifs
      · rfl
      · rfl

/-! ### What is left -/

theorem scanSign_suffix :
  (scanSign text).2 <:+ text
  := by
  unfold scanSign
  split
  · apply List.suffix_cons
  · apply List.suffix_cons
  · apply List.suffix_rfl

/-- What is left is an end of the text. -/
theorem scanNumber_suffix (text : List UInt8) :
  (scanNumber text).2 <:+ text
  := by
  have hstart : (scanSign (text.dropWhile isSpace)).2 <:+ text :=
    scanSign_suffix.trans (List.dropWhile_suffix isSpace)
  rw [scanNumber]
  dsimp only
  cases h : scanDigits (scanSign (text.dropWhile isSpace)).2 with
  | none => apply hstart
  | some r =>
      rw [scanDigits] at h
      split_ifs at h
      obtain rfl := Option.some.inj h
      apply (List.dropWhile_suffix isDigit).trans hstart

theorem scanByte_eq_some_iff {rest : List UInt8} :
  scanByte c text = some rest ↔ text = c :: rest
  := by
  cases text with
  | nil => simp only [scanByte, reduceCtorEq]
  | cons d text =>
      rw [scanByte, List.cons.injEq]
      split_ifs with h
      · rw [Option.some.injEq, and_iff_right h]
      · simp only [h, false_and]

end Bytes
