import Mathlib.Data.List.Basic

/-!
# Strings in a text, and templates

A reader of a text in which strings stand between double quotes finds the strings by going through
the text once.  A backslash in a string takes away the meaning of the byte after it.

In a template, variables of one letter stand between braces, and are replaced by their values.
-/

namespace Bytes

/-- Where a reader is: outside of a string, or in one of which some bytes have been read, the last
one of them perhaps a backslash. -/
inductive QuoteState where
  | outside
  | inside (string : List UInt8)
  | escaped (string : List UInt8)
  deriving DecidableEq

/-- The strings that are found in a text, and where the reader is after it. -/
def readQuoted : QuoteState → List UInt8 → List (List UInt8) × QuoteState
  | state, [] => ([], state)
  | .outside, c :: s => if c = 34 then readQuoted (.inside []) s else readQuoted .outside s
  | .inside string, c :: s =>
      if c = 34 then (string :: (readQuoted .outside s).1, (readQuoted .outside s).2)
      else if c = 92 then readQuoted (.escaped (string ++ [c])) s
      else readQuoted (.inside (string ++ [c])) s
  | .escaped string, c :: s => readQuoted (.inside (string ++ [c])) s

/-- The strings in a text. -/
def quoted (s : List UInt8) : List (List UInt8) := (readQuoted .outside s).1

/-- The text without the meaning of quotes and backslashes. -/
structure Unquoted (s : List UInt8) : Prop where
  quote_notMem : 34 ∉ s
  backslash_notMem : 92 ∉ s

/-- A template with the values of its variables. -/
def fill (value : UInt8 → Option (List UInt8)) : List UInt8 → List UInt8
  | 123 :: c :: 125 :: s =>
      match value c with
      | none => 123 :: c :: 125 :: fill value s
      | some v => v ++ fill value s
  | c :: s => c :: fill value s
  | [] => []

variable {state : QuoteState} {l l' s string : List UInt8} {value : UInt8 → Option (List UInt8)}

/-! ### Strings -/

theorem readQuoted_nil (state : QuoteState) :
  readQuoted state [] = ([], state)
  := by
  cases state <;> rfl

theorem readQuoted_outside_cons (c : UInt8) (s : List UInt8) :
  readQuoted .outside (c :: s) =
    if c = 34 then readQuoted (.inside []) s else readQuoted .outside s
  := rfl

theorem readQuoted_inside_cons (c : UInt8) (string s : List UInt8) :
  readQuoted (.inside string) (c :: s) =
    if c = 34 then (string :: (readQuoted .outside s).1, (readQuoted .outside s).2)
    else if c = 92 then readQuoted (.escaped (string ++ [c])) s
    else readQuoted (.inside (string ++ [c])) s
  := rfl

theorem readQuoted_escaped_cons (c : UInt8) (string s : List UInt8) :
  readQuoted (.escaped string) (c :: s) = readQuoted (.inside (string ++ [c])) s
  := rfl

/-- A text is read in two parts. -/
theorem readQuoted_append (state : QuoteState) (l s : List UInt8) :
  readQuoted state (l ++ s) =
    ((readQuoted state l).1 ++ (readQuoted (readQuoted state l).2 s).1,
      (readQuoted (readQuoted state l).2 s).2)
  := by
  induction l generalizing state with
  | nil =>
      rw [List.nil_append, readQuoted_nil]
      rfl
  | cons c l ih =>
      cases state with
      | outside =>
          rw [List.cons_append, readQuoted_outside_cons, readQuoted_outside_cons]
          split_ifs
          · exact ih _
          · exact ih _
      | inside string =>
          rw [List.cons_append, readQuoted_inside_cons, readQuoted_inside_cons]
          split_ifs
          · rw [ih .outside]
            rfl
          · exact ih _
          · exact ih _
      | escaped string =>
          rw [List.cons_append, readQuoted_escaped_cons, readQuoted_escaped_cons]
          exact ih _

/-- A text without quotes has no strings. -/
theorem readQuoted_outside (h : 34 ∉ l) :
  readQuoted .outside l = ([], .outside)
  := by
  induction l with
  | nil => rfl
  | cons c l ih =>
      rw [List.mem_cons, not_or] at h
      rw [readQuoted_outside_cons, if_neg (Ne.symm h.1), ih h.2]

/-- A text without quotes and backslashes goes on with a string. -/
theorem readQuoted_inside (h : Unquoted l) :
  readQuoted (.inside string) l = ([], .inside (string ++ l))
  := by
  induction l generalizing string with
  | nil => rw [readQuoted_nil, List.append_nil]
  | cons c l ih =>
      obtain ⟨hquote, hbackslash⟩ := h
      rw [List.mem_cons, not_or] at hquote hbackslash
      rw [readQuoted_inside_cons, if_neg (Ne.symm hquote.1), if_neg (Ne.symm hbackslash.1),
        ih ⟨hquote.2, hbackslash.2⟩, List.append_assoc, List.singleton_append]

/-- A string is read, between quotes and after a text without strings. -/
theorem readQuoted_string (h : Unquoted l) :
  readQuoted (.inside string) (l ++ 34 :: s) =
    ((string ++ l) :: (readQuoted .outside s).1, (readQuoted .outside s).2)
  := by
  rw [readQuoted_append, readQuoted_inside h]
  dsimp only
  rw [readQuoted_inside_cons, if_pos rfl, List.nil_append]

theorem Unquoted.append (h : Unquoted l) (h' : Unquoted l') :
  Unquoted (l ++ l')
  := by
  constructor
  · rw [List.mem_append, not_or]
    exact ⟨h.quote_notMem, h'.quote_notMem⟩
  · rw [List.mem_append, not_or]
    exact ⟨h.backslash_notMem, h'.backslash_notMem⟩

/-! ### Templates -/

/-- A text without braces stays in a template. -/
theorem fill_append (h : 123 ∉ l) :
  fill value (l ++ s) = l ++ fill value s
  := by
  induction l with
  | nil => rfl
  | cons c l ih =>
      rw [List.mem_cons, not_or] at h
      rw [List.cons_append, fill.eq_def]
      split
      · rename_i heq
        exact absurd (List.cons.inj heq).1.symm h.1
      · rename_i heq
        obtain ⟨rfl, rfl⟩ := List.cons.inj heq
        rw [ih h.2]
        rfl
      · contradiction

/-- A variable is replaced by its value. -/
theorem fill_variable {c : UInt8} {v : List UInt8} (h : value c = some v) :
  fill value (123 :: c :: 125 :: s) = v ++ fill value s
  := by
  rw [fill, h]

end Bytes
