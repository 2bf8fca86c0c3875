import Mathlib.Data.List.Basic
import Mathlib.Tactic.SplitIfs

/-!
# Text with quoted literals

The rule of SQL for string literals.  A literal starts with a quote and ends with one, and two
quotes in it stand for one that belongs to the content.  `lex` splits a text into the characters
outside of literals and the contents of the literals; a text that ends within a literal is not
split.  `unlex` writes the pieces out again, with the quotes of a content doubled, and gives back
the text.
-/

namespace QuotedText

variable {α : Type*}

/-- A character outside of literals, or a literal with its content. -/
inductive Piece (α : Type*) where
  | char (c : α)
  | literal (content : List α)
  deriving DecidableEq

/-- Where in a text: outside of literals, in a literal with the content so far, or behind a quote
that ends the literal unless another one follows. -/
inductive Place (α : Type*) where
  | outside
  | inside (content : List α)
  | behindQuote (content : List α)

/-- The pieces of the text from a place on. -/
def lexFrom [DecidableEq α] (quote : α) : Place α → List α → Option (List (Piece α))
  | .outside, [] => some []
  | .outside, c :: s =>
      if c = quote then lexFrom quote (.inside []) s
      else (lexFrom quote .outside s).map (.char c :: ·)
  | .inside _, [] => none
  | .inside content, c :: s =>
      if c = quote then lexFrom quote (.behindQuote content) s
      else lexFrom quote (.inside (content ++ [c])) s
  | .behindQuote content, [] => some [.literal content]
  | .behindQuote content, c :: s =>
      if c = quote then lexFrom quote (.inside (content ++ [quote])) s
      else (lexFrom quote .outside s).map fun ps => .literal content :: .char c :: ps

/-- The pieces of a text. -/
def lex [DecidableEq α] (quote : α) (s : List α) : Option (List (Piece α)) :=
  lexFrom quote .outside s

/-- A content with its quotes doubled. -/
def escape [DecidableEq α] (quote : α) (s : List α) : List α :=
  s.flatMap fun c => if c = quote then [quote, quote] else [c]

/-- The text of a piece. -/
def Piece.text [DecidableEq α] (quote : α) : Piece α → List α
  | char c => [c]
  | literal content => quote :: escape quote content ++ [quote]

/-- The text of a sequence of pieces. -/
def unlex [DecidableEq α] (quote : α) (ps : List (Piece α)) : List α :=
  ps.flatMap (Piece.text quote)

/-- Characters outside of literals. -/
def chars (s : List α) : List (Piece α) := s.map .char

variable [DecidableEq α] {quote c : α} {s t : List α} {ps qs : List (Piece α)}

/-! ### The steps through a text -/

theorem lexFrom_outside_cons :
  lexFrom quote .outside (c :: s) =
    if c = quote then lexFrom quote (.inside []) s
    else (lexFrom quote .outside s).map (.char c :: ·)
  := rfl

theorem lexFrom_inside_cons {content : List α} :
  lexFrom quote (.inside content) (c :: s) =
    if c = quote then lexFrom quote (.behindQuote content) s
    else lexFrom quote (.inside (content ++ [c])) s
  := rfl

theorem lexFrom_behindQuote_cons {content : List α} :
  lexFrom quote (.behindQuote content) (c :: s) =
    if c = quote then lexFrom quote (.inside (content ++ [quote])) s
    else (lexFrom quote .outside s).map fun ps => .literal content :: .char c :: ps
  := rfl

/-! ### Writing out the pieces -/

/-- The part of a literal before a place in it. -/
def Place.opened (quote : α) : Place α → List α
  | outside => []
  | inside content => quote :: escape quote content
  | behindQuote content => quote :: escape quote content ++ [quote]

theorem escape_append :
  escape quote (s ++ t) = escape quote s ++ escape quote t
  := List.flatMap_append

theorem escape_singleton (h : c ≠ quote) :
  escape quote [c] = [c]
  := by
  simp [escape, h]

theorem escape_quote :
  escape quote [quote] = [quote, quote]
  := by
  simp [escape]

/-- The pieces of a text from a place on are written out as the text. -/
theorem unlex_lexFrom {p : Place α} (h : lexFrom quote p s = some ps) :
  unlex quote ps = p.opened quote ++ s
  := by
  induction s generalizing p ps with
  | nil =>
      cases p with
      | outside =>
          obtain rfl := Option.some.inj h
          rfl
      | inside content => contradiction
      | behindQuote content =>
          obtain rfl := Option.some.inj h
          simp [unlex, Piece.text, Place.opened]
  | cons c s ih =>
      cases p with
      | outside =>
          rw [lexFrom_outside_cons] at h
          split_ifs at h with hc
          · rw [ih h, hc]
            rfl
          · obtain ⟨qs, hqs, rfl⟩ := Option.map_eq_some_iff.mp h
            rw [unlex, List.flatMap_cons, ← unlex, ih hqs]
            rfl
      | inside content =>
          rw [lexFrom_inside_cons] at h
          split_ifs at h with hc
          · rw [ih h, hc]
            simp [Place.opened]
          · rw [ih h, Place.opened, Place.opened, escape_append, escape_singleton hc]
            simp
      | behindQuote content =>
          rw [lexFrom_behindQuote_cons] at h
          split_ifs at h with hc
          · rw [ih h, hc, Place.opened, Place.opened, escape_append, escape_quote]
            simp
          · obtain ⟨qs, hqs, rfl⟩ := Option.map_eq_some_iff.mp h
            rw [unlex, List.flatMap_cons, List.flatMap_cons, ← unlex, ih hqs]
            simp [Piece.text, Place.opened]

/-- The pieces of a text are written out as the text. -/
theorem unlex_lex (h : lex quote s = some ps) :
  unlex quote ps = s
  := unlex_lexFrom h

theorem unlex_append :
  unlex quote (ps ++ qs) = unlex quote ps ++ unlex quote qs
  := List.flatMap_append

theorem unlex_chars :
  unlex quote (chars s) = s
  := by
  rw [unlex, chars, List.flatMap_map]
  apply List.flatMap_singleton'

theorem unlex_literal :
  unlex quote [.literal s] = quote :: escape quote s ++ [quote]
  := by
  rw [unlex, List.flatMap_singleton, Piece.text]

/-- A content gets longer by its quotes. -/
theorem length_escape :
  (escape quote s).length = s.length + s.count quote
  := by
  induction s with
  | nil => rfl
  | cons c s ih =>
      rw [escape, List.flatMap_cons, List.length_append, ← escape, ih, List.length_cons,
        List.count_cons]
      by_cases hc : c = quote
      · simp [hc]
        omega
      · simp [hc]
        omega

/-! ### Splitting a text -/

/-- Characters that are no quotes stay outside of literals. -/
theorem lex_append_chars (h : quote ∉ s) :
  lex quote (s ++ t) = (lex quote t).map (chars s ++ ·)
  := by
  induction s with
  | nil =>
      rw [List.nil_append]
      simp [chars]
  | cons c s ih =>
      obtain ⟨hc, hs⟩ := not_or.mp (List.mem_cons.not.mp h)
      rw [List.cons_append, lex, lexFrom_outside_cons, if_neg (Ne.symm hc), ← lex, ih hs,
        Option.map_map]
      rfl

/-- A content without quotes is taken whole. -/
theorem lexFrom_inside (h : quote ∉ s) (content : List α) :
  lexFrom quote (.inside content) (s ++ quote :: t) =
    lexFrom quote (.behindQuote (content ++ s)) t
  := by
  induction s generalizing content with
  | nil => rw [List.nil_append, lexFrom_inside_cons, if_pos rfl, List.append_nil]
  | cons c s ih =>
      obtain ⟨hc, hs⟩ := not_or.mp (List.mem_cons.not.mp h)
      rw [List.cons_append, lexFrom_inside_cons, if_neg (Ne.symm hc), ih hs, List.append_assoc]
      rfl

/-- A literal ends at a quote behind which no other quote follows. -/
theorem lexFrom_behindQuote {content : List α} (ht : ∀ c ∈ t.head?, c ≠ quote) :
  lexFrom quote (.behindQuote content) t = (lex quote t).map (.literal content :: ·)
  := by
  cases t with
  | nil => rfl
  | cons c t =>
      have hc : c ≠ quote := ht c rfl
      rw [lexFrom_behindQuote_cons, if_neg hc, lex, lexFrom_outside_cons, if_neg hc, Option.map_map]
      rfl

/-- A literal without quotes in it ends where no other quote follows. -/
theorem lex_literal (h : quote ∉ s) (ht : ∀ c ∈ t.head?, c ≠ quote) :
  lex quote (quote :: (s ++ quote :: t)) = (lex quote t).map (.literal s :: ·)
  := by
  rw [lex, lexFrom_outside_cons, if_pos rfl, lexFrom_inside h, List.nil_append]
  exact lexFrom_behindQuote ht

/-- A text that is not split within a literal can be followed by another one. -/
theorem lexFrom_append {p : Place α} (h : lexFrom quote p s = some ps)
    (ht : ∀ c ∈ t.head?, c ≠ quote) :
  lexFrom quote p (s ++ t) = (lex quote t).map (ps ++ ·)
  := by
  induction s generalizing p ps with
  | nil =>
      rw [List.nil_append]
      cases p with
      | outside =>
          obtain rfl := Option.some.inj h
          simp [lex]
      | inside content => contradiction
      | behindQuote content =>
          obtain rfl := Option.some.inj h
          exact lexFrom_behindQuote ht
  | cons c s ih =>
      cases p with
      | outside =>
          rw [lexFrom_outside_cons] at h
          rw [List.cons_append, lexFrom_outside_cons]
          split_ifs at h ⊢ with hc
          · apply ih h
          · obtain ⟨qs, hqs, rfl⟩ := Option.map_eq_some_iff.mp h
            rw [ih hqs, Option.map_map]
            rfl
      | inside content =>
          rw [lexFrom_inside_cons] at h
          rw [List.cons_append, lexFrom_inside_cons]
          split_ifs at h ⊢ with hc
          · apply ih h
          · apply ih h
      | behindQuote content =>
          rw [lexFrom_behindQuote_cons] at h
          rw [List.cons_append, lexFrom_behindQuote_cons]
          split_ifs at h ⊢ with hc
          · apply ih h
          · obtain ⟨qs, hqs, rfl⟩ := Option.map_eq_some_iff.mp h
            rw [ih hqs, Option.map_map]
            rfl

/-- The pieces of a text that starts with the text of other pieces. -/
theorem lex_append (hs : lex quote s = some ps) (ht : ∀ c ∈ t.head?, c ≠ quote) :
  lex quote (s ++ t) = (lex quote t).map (ps ++ ·)
  := lexFrom_append hs ht

end QuotedText
