import ModTile.Bytes.CString
import ModTile.Bytes.Scan
import ModTile.RenderExpired

/-!
# The input of the program that expires tiles

The loop of `render_expired.c` that reads the standard input.  A round reads a tile with `fscanf`,
and when there is none, it discards with `fgets` what is left of the line.  Neither of them keeps
to the lines: `fscanf` skips a newline like other white space, and `fgets` takes at most 1023 bytes.

A line is *separate* if it is read as a line, whatever comes after it.
-/

namespace RenderExpired

open Bytes (ofString isSpace isDigit scanNumber scanByte IsNumber EndsNumber)

/-! ### The loop -/

/-- The standard input: what is left of it, and whether its end has been met. -/
structure Stream where
  text : List UInt8
  eof : Bool

/-- Three numbers. -/
structure Triple where
  z : ℤ
  x : ℤ
  y : ℤ
  deriving DecidableEq

/-- The value that is stored for a number: the nearest one with 64 bits, cut off to 32 bits. -/
def toInt32 (n : ℤ) : Int32 := Int32.ofInt (max (-2 ^ 63) (min n (2 ^ 63 - 1)))

/-- The tile that is stored for three numbers. -/
def Triple.tile (t : Triple) : Tile := ⟨toInt32 t.z, toInt32 t.x, toInt32 t.y⟩

/-- The part `%d/` of the format, and what comes after it. -/
def scanPart (next : ℤ → List UInt8 → Option Triple × List UInt8) (text : List UInt8) :
    Option Triple × List UInt8 :=
  match scanNumber text with
  | (none, rest) => (none, rest)
  | (some n, rest) =>
      match scanByte 47 rest with
      | none => (none, rest)
      | some rest => next n rest

/-- The last number of the format. -/
def scanThird (z x : ℤ) (text : List UInt8) : Option Triple × List UInt8 :=
  match scanNumber text with
  | (none, rest) => (none, rest)
  | (some y, rest) => (some ⟨z, x, y⟩, rest)

/-- The format from the second number on. -/
def scanSecond (z : ℤ) (text : List UInt8) : Option Triple × List UInt8 :=
  scanPart (scanThird z) text

/-- The format `%d/%d/%d`. -/
def scanTriple (text : List UInt8) : Option Triple × List UInt8 := scanPart scanSecond text

/-- `fscanf` with the format `%d/%d/%d`.  It looks at the byte after the last one that it takes, so
that it has met the end of the input exactly if nothing is left. -/
def fscanf (s : Stream) : Option Triple × Stream :=
  ((scanTriple s.text).1, { text := (scanTriple s.text).2, eof := (scanTriple s.text).2.isEmpty })

/-- `fgets` with a buffer of 1024 bytes. -/
def fgets (s : Stream) : Stream :=
  if 1023 ≤ (s.text.takeWhile (· ≠ 10)).length then { s with text := s.text.drop 1023 }
  else
    match s.text.dropWhile (· ≠ 10) with
    | [] => { text := [], eof := true }
    | _ :: rest => { s with text := rest }

/-- A round of the loop. -/
def round (s : Stream) : Option Tile × Stream :=
  match fscanf s with
  | (none, s) => (none, fgets s)
  | (some t, s) => (some t.tile, s)

/-- The loop, for at most `n` tests of its condition. -/
def readInput : ℕ → Stream → Option (List (Option Tile))
  | 0, _ => none
  | n + 1, s =>
      if s.eof then some [] else (readInput n (round s).2).map ((round s).1 :: ·)

/-! ### The loop ends -/

variable {text tail line rest blanks : List UInt8} {s : Stream} {n m : ℕ} {z x : ℤ} {t : Triple}
  {out : List (Option Tile)}

theorem scanThird_suffix (z x : ℤ) (text : List UInt8) :
  (scanThird z x text).2 <:+ text
  := by
  have h := Bytes.scanNumber_suffix text
  rw [scanThird]
  split
  case h_1 hscan =>
    rw [hscan] at h
    apply h
  case h_2 hscan =>
    rw [hscan] at h
    apply h

theorem scanPart_suffix {next : ℤ → List UInt8 → Option Triple × List UInt8}
    (hnext : ∀ n text, (next n text).2 <:+ text) (text : List UInt8) :
  (scanPart next text).2 <:+ text ∧
    ((scanPart next text).1.isSome → (scanPart next text).2.length < text.length)
  := by
  have h := Bytes.scanNumber_suffix text
  rw [scanPart]
  split
  case h_1 hscan =>
    rw [hscan] at h
    exact ⟨h, nofun⟩
  case h_2 n rest hscan =>
    rw [hscan] at h
    split
    case h_1 => exact ⟨h, nofun⟩
    case h_2 rest' hbyte =>
      rw [Bytes.scanByte_eq_some_iff.mp hbyte] at h
      have hsuffix := hnext n rest'
      use hsuffix.trans ((List.suffix_cons _ _).trans h)
      intro _
      apply hsuffix.length_le.trans_lt h.length_le

/-- What is left of a text is an end of it, and it is shorter if three numbers have been read. -/
theorem scanTriple_suffix (text : List UInt8) :
  (scanTriple text).2 <:+ text ∧
    ((scanTriple text).1.isSome → (scanTriple text).2.length < text.length)
  := by
  apply scanPart_suffix
  intro z text
  apply (scanPart_suffix (scanThird_suffix z) text).1

/-- `fgets` takes something or meets the end. -/
theorem length_fgets (h : (fgets s).eof = false) :
  (fgets s).text.length < s.text.length
  := by
  rw [fgets] at h ⊢
  split_ifs at h ⊢ with hlong
  · have hpre := List.takeWhile_prefix (l := s.text) (· ≠ 10)
    have hle := hlong.trans hpre.length_le
    dsimp only
    rw [List.length_drop]
    omega
  · split at h
    case h_1 => cases h
    case h_2 c rest hdrop =>
      have hle := (List.dropWhile_suffix (l := s.text) (· ≠ 10)).length_le
      rw [hdrop] at hle
      apply hle

theorem round_of_none (h : scanTriple s.text = (none, rest)) :
  round s = (none, fgets ⟨rest, rest.isEmpty⟩)
  := by
  rw [round, fscanf, h]

theorem round_of_some (h : scanTriple s.text = (some t, rest)) :
  round s = (some t.tile, ⟨rest, rest.isEmpty⟩)
  := by
  rw [round, fscanf, h]

/-- How often the condition of the loop is tested at most. -/
def Stream.rounds (s : Stream) : ℕ := if s.eof then 1 else s.text.length + 2

theorem rounds_eq (h : s.eof = false) :
  s.rounds = s.text.length + 2
  := by
  rw [Stream.rounds, h]
  rfl

theorem rounds_round_lt (h : s.eof = false) :
  (round s).2.rounds < s.rounds
  := by
  obtain ⟨hsuffix, hlt⟩ := scanTriple_suffix s.text
  have hround : ∀ s' : Stream, (s'.eof = false → s'.text.length < s.text.length) →
      s'.rounds < s.rounds := by
    intro s' hs'
    rw [rounds_eq h, Stream.rounds]
    split_ifs with heof
    · apply Nat.succ_lt_succ (Nat.succ_pos _)
    · apply Nat.add_lt_add_right (hs' (Bool.eq_false_iff.mpr heof))
  apply hround
  intro heof
  rcases hscan : scanTriple s.text with ⟨r, rest⟩
  rw [hscan] at hsuffix hlt
  cases r with
  | none =>
      rw [round_of_none hscan] at heof ⊢
      apply (length_fgets heof).trans_le hsuffix.length_le
  | some t =>
      rw [round_of_some hscan]
      apply hlt rfl

/-- The loop comes to its end. -/
theorem exists_readInput (h : s.rounds ≤ n) :
  ∃ out, readInput n s = some out
  := by
  induction n generalizing s with
  | zero =>
      rw [Stream.rounds] at h
      split_ifs at h
      · apply absurd h (Nat.not_succ_le_zero _)
      · apply absurd h (Nat.not_succ_le_zero _)
  | succ n ih =>
      rw [readInput]
      split_ifs with heof
      · exact ⟨[], rfl⟩
      · have hlt := rounds_round_lt (Bool.eq_false_iff.mpr heof)
        obtain ⟨out, hout⟩ := ih (Nat.le_of_lt_succ (hlt.trans_le h))
        rw [hout]
        exact ⟨_, rfl⟩

/-- More rounds do not change the result. -/
theorem readInput_succ (h : readInput n s = some out) :
  readInput (n + 1) s = some out
  := by
  induction n generalizing s out with
  | zero => cases h
  | succ n ih =>
      rw [readInput] at h ⊢
      split_ifs at h ⊢ with heof
      · apply h
      · obtain ⟨out', hout', rfl⟩ := Option.map_eq_some_iff.mp h
        rw [ih hout']
        rfl

theorem readInput_of_le (h : readInput n s = some out) (hle : n ≤ m) :
  readInput m s = some out
  := by
  induction hle with
  | refl => apply h
  | step _ ih => apply readInput_succ ih

/-! ### What is read -/

/-- The numbers of a tile. -/
def Tile.triple (t : Tile) : Triple := ⟨t.z.toInt, t.x.toInt, t.y.toInt⟩

/-- The tiles that are read from a stream. -/
def Stream.tiles (s : Stream) : List Triple :=
  ((readInput s.rounds s).getD []).reduceOption.map Tile.triple

/-- The tiles that are read from a text. -/
def tilesRead (text : List UInt8) : List Triple := (Stream.mk text false).tiles

theorem tiles_eq (h : s.eof = false) :
  s.tiles = ((round s).1.map Tile.triple).toList ++ (round s).2.tiles
  := by
  obtain ⟨out, hout⟩ := exists_readInput (le_refl (round s).2.rounds)
  have hread : readInput s.rounds s = some ((round s).1 :: out) := by
    have hlt := rounds_round_lt h
    rw [rounds_eq h] at hlt ⊢
    rw [readInput, if_neg (Bool.eq_false_iff.mp h),
      readInput_of_le hout (Nat.le_of_lt_succ hlt), Option.map_some]
  rw [Stream.tiles, hread, Stream.tiles, hout]
  cases (round s).1 with
  | none => rfl
  | some t => rfl

/-- A stream whose end has been met exactly if nothing is left is read as its text. -/
theorem tiles_isEmpty (text : List UInt8) :
  (Stream.mk text text.isEmpty).tiles = tilesRead text
  := by
  cases text with
  | nil => rfl
  | cons c text => rfl

theorem tilesRead_of_none (h : scanTriple text = (none, rest)) :
  tilesRead text = (fgets ⟨rest, rest.isEmpty⟩).tiles
  := by
  rw [tilesRead, tiles_eq rfl, round_of_none h]
  rfl

theorem tilesRead_of_some (h : scanTriple text = (some t, rest)) :
  tilesRead text = t.tile.triple :: tilesRead rest
  := by
  rw [tilesRead, tiles_eq rfl, round_of_some h, tiles_isEmpty]
  rfl

theorem scanPart_blank {next : ℤ → List UInt8 → Option Triple × List UInt8}
    (hblanks : ∀ c ∈ blanks, isSpace c) :
  scanPart next (blanks ++ text) = scanPart next text
  := by
  rw [scanPart, scanPart, Bytes.scanNumber_blank hblanks]

/-- White space in front of a text is skipped. -/
theorem tilesRead_blank (hblanks : ∀ c ∈ blanks, isSpace c) :
  tilesRead (blanks ++ text) = tilesRead text
  := by
  have hscan : scanTriple (blanks ++ text) = scanTriple text := by
    rw [scanTriple, scanPart_blank hblanks]
    rfl
  rcases h : scanTriple text with ⟨_ | t, rest⟩
  · rw [tilesRead_of_none h, tilesRead_of_none (hscan.trans h)]
  · rw [tilesRead_of_some h, tilesRead_of_some (hscan.trans h)]

/-! ### Numbers that fit -/

/-- All three numbers are numbers of 32 bits. -/
def Triple.Fits (t : Triple) : Prop :=
  ∀ n ∈ [t.z, t.x, t.y], -2 ^ 31 ≤ n ∧ n < 2 ^ 31

theorem toInt_toInt32_iff (n : ℤ) :
  (toInt32 n).toInt = n ↔ -2 ^ 31 ≤ n ∧ n < 2 ^ 31
  := by
  constructor
  · intro h
    rw [← h]
    exact ⟨(toInt32 n).le_toInt, (toInt32 n).toInt_lt⟩
  · rintro ⟨hle, hlt⟩
    rw [toInt32, Int32.toInt_ofInt_of_le]
    · omega
    · omega
    · omega

theorem triple_tile_iff :
  t.tile.triple = t ↔ t.Fits
  := by
  obtain ⟨z, x, y⟩ := t
  simp only [Triple.tile, Tile.triple, Triple.mk.injEq, Triple.Fits, toInt_toInt32_iff,
    List.forall_mem_cons, List.not_mem_nil, false_implies, implies_true, and_true]

/-! ### Lines -/

/-- The form of a line that is a tile: three decimal integers with slashes between them, and white
space around them. -/
def HasForm (line : List UInt8) (t : Triple) : Prop :=
  ∃ before z x y after, line = before ++ (z ++ 47 :: (x ++ 47 :: (y ++ after))) ∧
    IsNumber z t.z ∧ IsNumber x t.x ∧ IsNumber y t.y ∧
    (∀ c ∈ before, isSpace c) ∧ ∀ c ∈ after, isSpace c

/-- What `fscanf` comes to within a line. -/
inductive LineScan where
  /-- There is only white space. -/
  | blank
  /-- The format does not match at a byte of the line or at its end. -/
  | stuck (rest : List UInt8)
  /-- The line ends while the second number is looked for. -/
  | afterFirst (z : ℤ)
  /-- The line ends while the third number is looked for. -/
  | afterSecond (z x : ℤ)
  | triple (t : Triple) (rest : List UInt8)

/-- A line in which a number and a slash are looked for. -/
def scanLinePart (ends : LineScan) (next : ℤ → List UInt8 → LineScan) (line : List UInt8) :
    LineScan :=
  if line.all isSpace then ends
  else
    match scanNumber line with
    | (none, rest) => .stuck rest
    | (some n, rest) =>
        match scanByte 47 rest with
        | none => .stuck rest
        | some rest => next n rest

/-- A line in which the third number is looked for. -/
def scanLineThird (z x : ℤ) (line : List UInt8) : LineScan :=
  if line.all isSpace then .afterSecond z x
  else
    match scanNumber line with
    | (none, rest) => .stuck rest
    | (some y, rest) => .triple ⟨z, x, y⟩ rest

/-- A line in which the second number is looked for. -/
def scanLineSecond (z : ℤ) (line : List UInt8) : LineScan :=
  scanLinePart (.afterFirst z) (scanLineThird z) line

/-- What `fscanf` comes to in a line. -/
def scanLine (line : List UInt8) : LineScan := scanLinePart .blank scanLineSecond line

/-- How the scan of a line goes on after the line. -/
def LineScan.resume (tail : List UInt8) : LineScan → Option Triple × List UInt8
  | .blank => scanTriple tail
  | .stuck rest => (none, rest ++ tail)
  | .afterFirst z => scanSecond z tail
  | .afterSecond z x => scanThird z x tail
  | .triple t rest => (some t, rest ++ tail)

/-- The text after a line: it is empty or starts with a newline. -/
def EndsLine (tail : List UInt8) : Prop := ∀ c ∈ tail.head?, c = 10

theorem endsLine_newline (rest : List UInt8) :
  EndsLine (10 :: rest)
  := by
  intro c hc
  apply (Option.some.inj hc).symm

theorem EndsLine.endsNumber (h : EndsLine tail) :
  EndsNumber tail
  := by
  intro c hc
  rw [h c hc]
  rfl

theorem EndsLine.ne_slash (h : EndsLine tail) :
  ∀ c ∈ tail.head?, c ≠ 47
  := by
  intro c hc
  rw [h c hc]
  decide

theorem scanNumber_append_of_not_all (hline : ¬ line.all isSpace) (htail : EndsLine tail) :
  scanNumber (line ++ tail) = ((scanNumber line).1, (scanNumber line).2 ++ tail)
  := by
  rw [List.all_eq_true, not_forall] at hline
  obtain ⟨c, hc⟩ := hline
  rw [Classical.not_imp] at hc
  apply Bytes.scanNumber_append hc.1 hc.2 htail.endsNumber

theorem scanThird_append (htail : EndsLine tail) :
  scanThird z x (line ++ tail) = (scanLineThird z x line).resume tail
  := by
  rw [scanLineThird]
  split_ifs with hblank
  · rw [scanThird, Bytes.scanNumber_blank (List.all_eq_true.mp hblank)]
    rfl
  · rw [scanThird, scanNumber_append_of_not_all hblank htail]
    rcases scanNumber line with ⟨_ | y, rest⟩
    · rfl
    · rfl

theorem scanPart_append {ends : LineScan} {next : ℤ → List UInt8 → Option Triple × List UInt8}
    {lineNext : ℤ → List UInt8 → LineScan} (htail : EndsLine tail)
    (hends : scanPart next tail = ends.resume tail)
    (hnext : ∀ n rest, next n (rest ++ tail) = (lineNext n rest).resume tail) :
  scanPart next (line ++ tail) = (scanLinePart ends lineNext line).resume tail
  := by
  rw [scanLinePart]
  split_ifs with hblank
  · rw [scanPart_blank (List.all_eq_true.mp hblank), hends]
  · rw [scanPart, scanNumber_append_of_not_all hblank htail]
    rcases scanNumber line with ⟨_ | n, rest⟩
    · rfl
    · dsimp only
      rw [Bytes.scanByte_append htail.ne_slash]
      cases scanByte 47 rest with
      | none => rfl
      | some rest => apply hnext

/-- `fscanf` does in a text what it does in the first line, and goes on after it. -/
theorem scanTriple_append (line : List UInt8) (htail : EndsLine tail) :
  scanTriple (line ++ tail) = (scanLine line).resume tail
  := by
  apply scanPart_append htail rfl
  intro z rest
  apply scanPart_append htail rfl
  intro x rest
  apply scanThird_append htail

/-- What is left of a line in which `fscanf` fails is its end. -/
theorem suffix_of_stuck (h : scanLine line = .stuck rest) :
  rest <:+ line
  := by
  have hnil : EndsLine [] := nofun
  have hscan := scanTriple_append line hnil
  rw [List.append_nil, h, LineScan.resume, List.append_nil] at hscan
  have hsuffix := (scanTriple_suffix line).1
  rw [hscan] at hsuffix
  apply hsuffix

theorem scanLinePart_ne_blank {ends : LineScan} {next : ℤ → List UInt8 → LineScan}
    (hnext : ∀ n rest, next n rest ≠ .blank) (hline : ends ≠ .blank ∨ ¬ line.all isSpace) :
  scanLinePart ends next line ≠ .blank
  := by
  intro h
  rw [scanLinePart] at h
  split_ifs at h with hall
  · rcases hline with hends | hnot
    · apply hends h
    · apply hnot hall
  · split at h
    case h_1 => cases h
    case h_2 =>
      split at h
      case h_1 => cases h
      case h_2 => apply hnext _ _ h

theorem all_isSpace (h : scanLine line = .blank) :
  line.all isSpace
  := by
  by_contra hline
  have hthird : ∀ z x rest, scanLineThird z x rest ≠ .blank := by
    intro z x rest h
    rw [scanLineThird] at h
    split_ifs at h
    split at h
    case h_1 => cases h
    case h_2 => cases h
  apply scanLinePart_ne_blank _ (Or.inr hline) h
  intro z rest
  have hends : LineScan.afterFirst z ≠ .blank := nofun
  apply scanLinePart_ne_blank (hthird z) (Or.inl hends)

theorem not_all_isSpace {number rest : List UInt8} {n : ℤ} (h : IsNumber number n) :
  ¬ (number ++ rest).all isSpace
  := by
  intro hall
  obtain ⟨c, hc, hdigit⟩ := h.exists_isDigit
  have hspace := List.all_eq_true.mp hall c (List.mem_append_left rest hc)
  rw [Bytes.isSpace_of_isDigit hdigit] at hspace
  cases hspace

/-- A number and a slash are found. -/
theorem scanLinePart_of_isNumber {ends : LineScan} {next : ℤ → List UInt8 → LineScan}
    {number : List UInt8} {n : ℤ} (hblanks : ∀ c ∈ blanks, isSpace c) (h : IsNumber number n) :
  scanLinePart ends next (blanks ++ (number ++ 47 :: rest)) = next n rest
  := by
  have hslash : EndsNumber (47 :: rest) := by
    intro c hc
    obtain rfl := Option.some.inj hc
    rfl
  have hline : ¬ (blanks ++ (number ++ 47 :: rest)).all isSpace := by
    rw [List.all_append, Bool.and_eq_true, not_and]
    intro _
    apply not_all_isSpace h
  rw [scanLinePart, if_neg hline, Bytes.scanNumber_blank hblanks,
    Bytes.scanNumber_of_isNumber h hslash]
  dsimp only
  rw [Bytes.scanByte_eq_some_iff.mpr rfl]

/-- A line that is a tile is read to its last number. -/
theorem HasForm.scanLine_eq (h : HasForm line t) :
  ∃ after, scanLine line = .triple t after ∧ ∀ c ∈ after, isSpace c
  := by
  obtain ⟨before, z, x, y, after, rfl, hz, hx, hy, hbefore, hafter⟩ := h
  have hend : EndsNumber after := by
    intro c hc
    have hspace := hafter c (List.mem_of_mem_head? hc)
    cases hdigit : isDigit c with
    | false => rfl
    | true =>
        rw [Bytes.isSpace_of_isDigit hdigit] at hspace
        cases hspace
  have hsecond : scanLineSecond t.z ([] ++ (x ++ 47 :: (y ++ after))) =
      scanLineThird t.z t.x (y ++ after) := scanLinePart_of_isNumber nofun hx
  use after
  constructor
  · rw [scanLine, scanLinePart_of_isNumber hbefore hz, ← List.nil_append (x ++ _), hsecond,
      scanLineThird, if_neg (not_all_isSpace hy), Bytes.scanNumber_of_isNumber hy hend]
  · apply hafter

/-- A line is at most one tile. -/
theorem HasForm.unique {t' : Triple} (h : HasForm line t) (h' : HasForm line t') :
  t = t'
  := by
  obtain ⟨after, hscan, -⟩ := h.scanLine_eq
  obtain ⟨after', hscan', -⟩ := h'.scanLine_eq
  apply (LineScan.triple.inj (hscan.symm.trans hscan')).1

/-! ### Separate lines -/

/-- The lines that are discarded.  If more is left than `fgets` takes, what is left after it has to
be discarded as well. -/
inductive Discarded : List UInt8 → Prop
  | blank {line : List UInt8} (h : scanLine line = .blank) : Discarded line
  | short {line rest : List UInt8} (h : scanLine line = .stuck rest)
      (hlen : rest.length < 1023) : Discarded line
  | long {line rest : List UInt8} (h : scanLine line = .stuck rest) (hlen : 1023 ≤ rest.length)
      (hrest : Discarded (rest.drop 1023)) : Discarded line

/-- A line is read as a line: it is a tile whose numbers are numbers of 32 bits, or it is
discarded. -/
def Separate (line : List UInt8) : Prop :=
  (∃ t, HasForm line t ∧ t.Fits) ∨ Discarded line

/-- The triples of the lines that are tiles. -/
inductive Triples : List (List UInt8) → List Triple → Prop
  | nil : Triples [] []
  | tile {line : List UInt8} {lines : List (List UInt8)} {t : Triple} {ts : List Triple}
      (h : HasForm line t) (hlines : Triples lines ts) : Triples (line :: lines) (t :: ts)
  | other {line : List UInt8} {lines : List (List UInt8)} {ts : List Triple}
      (h : ∀ t, ¬ HasForm line t) (hlines : Triples lines ts) : Triples (line :: lines) ts

/-- The newline after a line is skipped. -/
theorem tilesRead_tail (htail : EndsLine tail) :
  tilesRead tail = tilesRead tail.tail
  := by
  cases tail with
  | nil => rfl
  | cons c tail =>
      obtain rfl := htail c rfl
      have hnewline : ∀ c ∈ [(10 : UInt8)], isSpace c := by
        intro c hc
        rw [List.mem_singleton.mp hc]
        rfl
      apply tilesRead_blank hnewline

/-- A text is cut at the end of its first line. -/
theorem takeWhile_append_tail (hrest : 10 ∉ rest) (htail : EndsLine tail) :
  (rest ++ tail).takeWhile (· ≠ 10) = rest ∧ (rest ++ tail).dropWhile (· ≠ 10) = tail
  := by
  have hline : ∀ c ∈ rest, decide (c ≠ 10) = true := by
    intro c hc
    apply decide_eq_true
    apply ne_of_mem_of_not_mem hc hrest
  have hend : tail.takeWhile (· ≠ 10) = [] ∧ tail.dropWhile (· ≠ 10) = tail := by
    cases tail with
    | nil => exact ⟨rfl, rfl⟩
    | cons c tail =>
        obtain rfl := htail c rfl
        exact ⟨rfl, rfl⟩
  rw [List.takeWhile_append_of_pos hline, List.dropWhile_append_of_pos hline, hend.1, hend.2,
    List.append_nil]
  exact ⟨rfl, rfl⟩

/-- `fgets` takes the rest of a line if it is short enough. -/
theorem tiles_fgets_short (hrest : 10 ∉ rest) (hlen : rest.length < 1023)
    (htail : EndsLine tail) :
  (fgets ⟨rest ++ tail, (rest ++ tail).isEmpty⟩).tiles = tilesRead tail.tail
  := by
  obtain ⟨htake, hdrop⟩ := takeWhile_append_tail hrest htail
  rw [fgets]
  dsimp only
  rw [htake, hdrop, if_neg (not_le.mpr hlen)]
  cases tail with
  | nil => rfl
  | cons c tail =>
      have hempty : (rest ++ c :: tail).isEmpty = false := by
        rw [List.isEmpty_eq_false_iff]
        apply List.append_ne_nil_of_right_ne_nil _ (List.cons_ne_nil c tail)
      rw [hempty]
      rfl

/-- `fgets` takes a part of the rest of a line that is too long. -/
theorem tiles_fgets_long (hrest : 10 ∉ rest) (hlen : 1023 ≤ rest.length)
    (htail : EndsLine tail) :
  (fgets ⟨rest ++ tail, (rest ++ tail).isEmpty⟩).tiles = tilesRead (rest.drop 1023 ++ tail)
  := by
  obtain ⟨htake, -⟩ := takeWhile_append_tail hrest htail
  have hempty : (rest ++ tail).isEmpty = false := by
    rw [List.isEmpty_eq_false_iff]
    apply List.append_ne_nil_of_left_ne_nil
    rintro rfl
    cases hlen
  rw [fgets]
  dsimp only
  rw [htake, if_pos hlen, hempty, List.drop_append_of_le_length hlen]
  rfl

/-- Nothing is read from a line that is discarded. -/
theorem tilesRead_of_discarded (h : Discarded line) (hline : 10 ∉ line) (htail : EndsLine tail) :
  tilesRead (line ++ tail) = tilesRead tail.tail
  := by
  induction h with
  | blank h => rw [tilesRead_blank (List.all_eq_true.mp (all_isSpace h)), tilesRead_tail htail]
  | @short line rest h hlen =>
      have hrest : 10 ∉ rest := fun hmem => hline ((suffix_of_stuck h).mem hmem)
      have hscan : scanTriple (line ++ tail) = (none, rest ++ tail) := by
        rw [scanTriple_append line htail, h]
        rfl
      rw [tilesRead_of_none hscan, tiles_fgets_short hrest hlen htail]
  | @long line rest h hlen _ ih =>
      have hrest : 10 ∉ rest := fun hmem => hline ((suffix_of_stuck h).mem hmem)
      have hscan : scanTriple (line ++ tail) = (none, rest ++ tail) := by
        rw [scanTriple_append line htail, h]
        rfl
      rw [tilesRead_of_none hscan, tiles_fgets_long hrest hlen htail]
      apply ih
      intro hmem
      apply hrest (List.mem_of_mem_drop hmem)

/-- A line that is a tile is read as this tile. -/
theorem tilesRead_of_hasForm (h : HasForm line t) (htail : EndsLine tail) :
  tilesRead (line ++ tail) = t.tile.triple :: tilesRead tail.tail
  := by
  obtain ⟨after, hscan, hafter⟩ := h.scanLine_eq
  have htriple : scanTriple (line ++ tail) = (some t, after ++ tail) := by
    rw [scanTriple_append line htail, hscan]
    rfl
  rw [tilesRead_of_some htriple, tilesRead_blank hafter, tilesRead_tail htail]

theorem not_hasForm_of_discarded (h : Discarded line) :
  ¬ HasForm line t
  := by
  intro hform
  obtain ⟨after, hscan, -⟩ := hform.scanLine_eq
  cases h with
  | blank h =>
      rw [h] at hscan
      cases hscan
  | short h _ =>
      rw [h] at hscan
      cases hscan
  | long h _ _ =>
      rw [h] at hscan
      cases hscan

/-- A line from which nothing is read, whatever comes after it, is discarded.  By induction on its
length: `fgets` leaves a shorter line. -/
theorem discarded_of_tilesRead (hline : 10 ∉ line)
    (h : ∀ rest, tilesRead (line ++ 10 :: rest) = tilesRead rest) :
  Discarded line
  := by
  induction hn : line.length using Nat.strong_induction_on generalizing line with
  | _ n ih =>
    have hscan : ∀ rest, scanTriple (line ++ 10 :: rest) = (scanLine line).resume (10 :: rest) :=
      fun rest => scanTriple_append line (endsLine_newline rest)
    cases hcase : scanLine line with
    | blank => apply Discarded.blank hcase
    | stuck rest =>
        rw [hcase] at hscan
        have hsuffix := suffix_of_stuck hcase
        have hrest : 10 ∉ rest := fun hmem => hline (hsuffix.mem hmem)
        by_cases hlen : rest.length < 1023
        · apply Discarded.short hcase hlen
        · rw [not_lt] at hlen
          apply Discarded.long hcase hlen
          have hlt : (rest.drop 1023).length < n := by
            have hle := hsuffix.length_le
            rw [List.length_drop]
            omega
          apply ih _ hlt (fun hmem => hrest (List.mem_of_mem_drop hmem)) _ rfl
          intro rest'
          rw [← h rest', tilesRead_of_none (hscan rest'),
            tiles_fgets_long hrest hlen (endsLine_newline rest')]
    | afterFirst z =>
        rw [hcase] at hscan
        have htile := tilesRead_of_some (hscan [49, 47, 50])
        rw [h] at htile
        cases htile
    | afterSecond z x =>
        rw [hcase] at hscan
        have htile := tilesRead_of_some (hscan [49])
        rw [h] at htile
        cases htile
    | triple t rest =>
        rw [hcase] at hscan
        have htile := tilesRead_of_some (hscan [])
        rw [h] at htile
        cases htile

/-- A line is separate exactly if, whatever comes after it, it is read as the tile that it is or as
nothing, and the rest is read as if the line were not there. -/
theorem separate_iff (hline : 10 ∉ line) :
  Separate line ↔ ∀ rest, ∃ ts, Triples [line] ts ∧
    tilesRead (line ++ 10 :: rest) = ts ++ tilesRead rest
  := by
  constructor
  · rintro (⟨t, hform, hfits⟩ | hdiscarded) rest
    · use [t], .tile hform .nil
      rw [tilesRead_of_hasForm hform (endsLine_newline rest), triple_tile_iff.mpr hfits]
      rfl
    · use [], .other (fun t => not_hasForm_of_discarded hdiscarded) .nil
      apply tilesRead_of_discarded hdiscarded hline (endsLine_newline rest)
  · intro h
    by_cases hform : ∃ t, HasForm line t
    · obtain ⟨t, hform⟩ := hform
      left
      use t, hform
      obtain ⟨ts, hts, hread⟩ := h []
      rw [tilesRead_of_hasForm hform (endsLine_newline [])] at hread
      cases hts with
      | tile hform' hnil =>
          cases hnil
          obtain rfl := hform.unique hform'
          apply triple_tile_iff.mp (List.cons.inj hread).1
      | other hnone => apply absurd hform (hnone t)
    · right
      apply discarded_of_tilesRead hline
      intro rest
      obtain ⟨ts, hts, hread⟩ := h rest
      cases hts with
      | tile hform' => apply absurd ⟨_, hform'⟩ hform
      | other _ hnil =>
          cases hnil
          apply hread

/-- One more line in front. -/
theorem triples_cons {lines : List (List UInt8)} (h : Separate line) (hline : 10 ∉ line)
    (htail : EndsLine tail) (hlines : Triples lines (tilesRead tail.tail)) :
  Triples (line :: lines) (tilesRead (line ++ tail))
  := by
  rcases h with ⟨t, hform, hfits⟩ | hdiscarded
  · rw [tilesRead_of_hasForm hform htail, triple_tile_iff.mpr hfits]
    apply Triples.tile hform hlines
  · rw [tilesRead_of_discarded hdiscarded hline htail]
    apply Triples.other (fun t => not_hasForm_of_discarded hdiscarded) hlines

/-- The lines of a text. -/
def lines (text : List UInt8) : List (List UInt8) := text.splitOnP (· = 10)

/-- Every text has a first line. -/
theorem exists_line (text : List UInt8) :
  ∃ line tail, text = line ++ tail ∧ 10 ∉ line ∧ EndsLine tail
  := by
  induction text with
  | nil => exact ⟨[], [], rfl, List.not_mem_nil, nofun⟩
  | cons c text ih =>
      obtain ⟨line, tail, rfl, hline, htail⟩ := ih
      by_cases hc : c = 10
      · rw [hc]
        exact ⟨[], _, rfl, List.not_mem_nil, endsLine_newline _⟩
      · use c :: line, tail, rfl
        rw [List.mem_cons, not_or]
        exact ⟨⟨Ne.symm hc, hline⟩, htail⟩

theorem lines_of_notMem (hline : 10 ∉ line) :
  lines line = [line] ∧ ∀ rest, lines (line ++ 10 :: rest) = line :: lines rest
  := by
  have hnot : ∀ c ∈ line, decide (c = 10) = false := by
    intro c hc
    apply decide_eq_false
    apply ne_of_mem_of_not_mem hc hline
  use List.splitOnP_eq_singleton hnot
  intro rest
  apply List.splitOnP_append_cons_of_forall_mem hnot
  rfl

/-- A text whose lines are separate is read line by line: by induction on its length, with the
first line cut off. -/
theorem triples_lines (h : ∀ line ∈ lines text, Separate line) :
  Triples (lines text) (tilesRead text)
  := by
  induction hn : text.length using Nat.strong_induction_on generalizing text with
  | _ n ih =>
    obtain ⟨line, tail, rfl, hline, htail⟩ := exists_line text
    obtain ⟨hlast, hmore⟩ := lines_of_notMem hline
    cases tail with
    | nil =>
        rw [List.append_nil, hlast] at h
        have htriples := triples_cons (h line List.mem_cons_self) hline htail Triples.nil
        rw [List.append_nil] at htriples ⊢
        rw [hlast]
        apply htriples
    | cons c rest =>
        obtain rfl := htail c rfl
        rw [hmore] at h ⊢
        obtain ⟨hfirst, hrest⟩ := List.forall_mem_cons.mp h
        apply triples_cons hfirst hline htail
        have hlt : rest.length < n := by
          rw [List.length_append, List.length_cons] at hn
          omega
        apply ih _ hlt hrest rfl

theorem isNumber_digit {c : UInt8} (h : isDigit c) :
  IsNumber [c] (Bytes.value [c])
  := by
  apply IsNumber.unsigned (List.cons_ne_nil c [])
  intro d hd
  rw [List.mem_singleton.mp hd]
  apply h

theorem hasForm_sample :
  HasForm (ofString "1/2/3") ⟨1, 2, 3⟩
  := ⟨[], [49], [50], [51], [], rfl, isNumber_digit rfl, isNumber_digit rfl, isNumber_digit rfl,
    nofun, nofun⟩

end RenderExpired
