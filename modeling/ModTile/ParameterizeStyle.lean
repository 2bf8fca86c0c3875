import Mathlib.Algebra.Order.BigOperators.Group.List
import ModTile.QuotedText
import ModTile.TileModule.Translate

/-!
# Parameterised styles

`parameterize_style.cpp`: the options of a request choose the languages of the names on a map.
`parameterize_map_language` takes the options apart at the commas, builds the text of an SQL
expression from the parts, and puts it in the place of `,name` in the table of every data source
of the map.

The text is built with `strncat` in an array of 256 bytes.  The bound that is passed to `strncat`
is one for the text that is added, not for the room that is left.  So a request with enough
languages makes the function write behind the array.  The languages are put between quotes as
they are, so that a quote in one of them ends the literal.
-/

namespace ParameterizeStyle

open Bytes (ofString)

/-- The size of `name_replace`. -/
def nameReplaceSize : ℕ := 256

/-- `strncat(name_replace, text, 255)`. -/
def append (nameReplace text : List UInt8) : Option (List UInt8) :=
  Bytes.strncat nameReplaceSize 255 nameReplace text

/-- One round of the loop over the parts of the options. -/
def appendToken (nameReplace tok : List UInt8) : Option (List UInt8) :=
  if tok = ofString "_" then append nameReplace (ofString "name,")
  else do
    let nameReplace ← append nameReplace (ofString "tags->'name:")
    let nameReplace ← append nameReplace tok
    append nameReplace (ofString "',")

/-- The text for the parts of the options.  There is no result when the function writes behind
the array. -/
def nameReplace (toks : List (List UInt8)) : Option (List UInt8) := do
  let nameReplace ← append [] (ofString ", coalesce(")
  let nameReplace ← toks.foldlM appendToken nameReplace
  append nameReplace.dropLast (ofString ") as name")

/-- The table of a data source, with the text in the place of `,name`. -/
def parameterizeTable (nameReplace table : List UInt8) : List UInt8 :=
  match Bytes.splitFirst (ofString ",name") table with
  | none => table
  | some (before, after) => before ++ (nameReplace ++ after)

/-- The tables of the data sources of a map, for those that have one.  There is no result when
the function writes behind the array. -/
def parameterizeMapLanguage (tables : List (Option (List UInt8))) (parameter : List UInt8) :
    Option (List (Option (List UInt8))) :=
  match Bytes.tokens 44 parameter with
  | [] => some tables
  | toks => (nameReplace toks).map fun text => tables.map (Option.map (parameterizeTable text))

/-- The function that the configuration of a map names. -/
def initParameterizationFunction (functionName : Option (List UInt8)) :
    Option (List (Option (List UInt8)) → List UInt8 → Option (List (Option (List UInt8)))) :=
  match functionName with
  | none => none
  | some name =>
      if name = [] then none
      else if name = ofString "language" then some parameterizeMapLanguage
      else none

/-! ### The text that is built -/

/-- The expression for a language. -/
def translation (tok : List UInt8) : List UInt8 :=
  if tok = ofString "_" then ofString "name"
  else ofString "tags->'name:" ++ (tok ++ ofString "'")

/-- The expression for the languages. -/
def replacement (toks : List (List UInt8)) : List UInt8 :=
  ofString ", coalesce(" ++ ([44].intercalate (toks.map translation) ++ ofString ") as name")

/-- The number of bytes for a language, with the comma. -/
def cost (tok : List UInt8) : ℕ :=
  if tok = ofString "_" then 5 else 14 + tok.length

/-- The expression for the languages fits into the array. -/
def Fits (toks : List (List UInt8)) : Prop :=
  19 + (toks.map cost).sum < nameReplaceSize

instance (toks : List (List UInt8)) : Decidable (Fits toks) :=
  inferInstanceAs (Decidable (_ < _))

variable {s t tok : List UInt8} {toks : List (List UInt8)}

/-- A text with a zero byte behind it, if it fits into the array. -/
def inArray (s : List UInt8) : Option (List UInt8) :=
  if s.length < nameReplaceSize then some s else none

theorem append_eq (hs : s ≠ []) :
  append s t = inArray (s ++ t)
  := by
  have hpos := List.length_pos_of_ne_nil hs
  rw [append, Bytes.strncat, inArray]
  rcases Nat.lt_or_ge 255 t.length with hlong | hshort
  · rw [if_neg, if_neg]
    · rw [List.length_append, nameReplaceSize]
      omega
    · rw [List.length_append, List.length_take, nameReplaceSize]
      omega
  · rw [List.take_of_length_le hshort]

/-- A text fits into the array only if the text before it does. -/
theorem inArray_bind {f : List UInt8 → Option (List UInt8)}
    (hf : s.length < nameReplaceSize → f s = inArray (s ++ t)) :
  (inArray s).bind f = inArray (s ++ t)
  := by
  by_cases hfirst : s.length < nameReplaceSize
  · rw [inArray, if_pos hfirst, Option.bind_some, hf hfirst]
  · rw [inArray, if_neg hfirst, Option.bind_none, inArray, if_neg]
    rw [List.length_append]
    omega

/-- Adding two texts, one after the other. -/
theorem append_bind {f : List UInt8 → Option (List UInt8)} {u : List UInt8} (hs : s ≠ [])
    (hf : ∀ s, s ≠ [] → f s = inArray (s ++ u)) :
  (append s t).bind f = inArray (s ++ (t ++ u))
  := by
  rw [append_eq hs, ← List.append_assoc]
  apply inArray_bind
  intro _
  apply hf
  apply List.append_ne_nil_of_left_ne_nil hs

/-- A round of the loop adds the expression for a language and a comma. -/
theorem appendToken_eq (hs : s ≠ []) :
  appendToken s tok = inArray (s ++ (translation tok ++ [44]))
  := by
  rw [appendToken, translation]
  by_cases htok : tok = ofString "_"
  · rw [if_pos htok, if_pos htok]
    apply append_eq hs
  · rw [if_neg htok, if_neg htok, List.append_assoc, List.append_assoc]
    apply append_bind hs
    intro s hs
    apply append_bind hs
    intro s hs
    apply append_eq hs

/-- The expressions for the languages with a comma behind each. -/
def listed (toks : List (List UInt8)) : List UInt8 :=
  toks.flatMap fun tok => translation tok ++ [44]

/-- The loop adds the expressions for the languages. -/
theorem foldlM_appendToken (hs : s ≠ []) :
  (inArray s).bind (toks.foldlM appendToken) = inArray (s ++ listed toks)
  := by
  induction toks generalizing s with
  | nil =>
      apply inArray_bind
      intro hfits
      rw [listed, List.flatMap_nil, List.append_nil, inArray, if_pos hfits]
      rfl
  | cons tok toks ih =>
      have hnext : s ++ (translation tok ++ [44]) ≠ [] :=
        List.append_ne_nil_of_left_ne_nil hs _
      apply inArray_bind
      intro _
      rw [List.foldlM_cons, appendToken_eq hs, Option.bind_eq_bind, ih hnext, List.append_assoc]
      rfl

/-- Without the last comma the expressions are separated by commas. -/
theorem listed_eq (h : toks ≠ []) :
  listed toks = [44].intercalate (toks.map translation) ++ [44]
  := by
  induction toks with
  | nil => contradiction
  | cons tok toks ih =>
      rw [listed, List.flatMap_cons, ← listed]
      cases toks with
      | nil => simp [listed]
      | cons tok' toks =>
          have hmap : (tok :: tok' :: toks).map translation =
              translation tok :: translation tok' :: toks.map translation := rfl
          rw [ih (List.cons_ne_nil _ _), hmap, List.intercalate_cons_cons]
          simp

theorem length_translation :
  (translation tok).length + 1 = cost tok
  := by
  rw [translation, cost]
  split_ifs
  · rfl
  · have hopen : (ofString "tags->'name:").length = 12 := rfl
    have hclose : (ofString "'").length = 1 := rfl
    rw [List.length_append, List.length_append, hopen, hclose]
    omega

theorem length_listed :
  (listed toks).length = (toks.map cost).sum
  := by
  induction toks with
  | nil => rfl
  | cons tok toks ih =>
      rw [listed, List.flatMap_cons, ← listed, List.length_append, ih, List.length_append,
        List.length_singleton, length_translation, List.map_cons, List.sum_cons]

theorem length_replacement (h : toks ≠ []) :
  (replacement toks).length = 19 + (toks.map cost).sum
  := by
  have hlisted := congrArg List.length (listed_eq h)
  have hopen : (ofString ", coalesce(").length = 11 := rfl
  have hclose : (ofString ") as name").length = 9 := rfl
  rw [length_listed, List.length_append, List.length_singleton] at hlisted
  rw [replacement, List.length_append, List.length_append, hopen, hclose]
  omega

/-- When the last comma is replaced, the text gets longer. -/
theorem inArray_dropLast (hs : s ≠ []) (ht : t ≠ []) :
  ((inArray (s ++ [44])).bind fun s => append s.dropLast t) = inArray (s ++ t)
  := by
  have hpos := List.length_pos_of_ne_nil ht
  by_cases hfits : (s ++ [44]).length < nameReplaceSize
  · rw [inArray, if_pos hfits, Option.bind_some, List.dropLast_concat, append_eq hs]
  · rw [inArray, if_neg hfits, Option.bind_none, inArray, if_neg]
    rw [List.length_append, List.length_singleton] at hfits
    rw [List.length_append]
    omega

/-- The text is the expression for the languages if that fits into the array. -/
theorem nameReplace_eq (h : toks ≠ []) :
  nameReplace toks = inArray (replacement toks)
  := by
  have hopen : ofString ", coalesce(" ≠ [] := by decide
  have hstart : append [] (ofString ", coalesce(") = inArray (ofString ", coalesce(") := rfl
  have hloop : (inArray (ofString ", coalesce(")).bind (toks.foldlM appendToken) =
      inArray (ofString ", coalesce(" ++ listed toks) :=
    foldlM_appendToken hopen
  have hrun : nameReplace toks = ((inArray (ofString ", coalesce(")).bind
      (toks.foldlM appendToken)).bind fun s => append s.dropLast (ofString ") as name") := by
    rw [Option.bind_assoc, ← hstart]
    rfl
  rw [hrun, hloop, listed_eq h, ← List.append_assoc, inArray_dropLast, replacement,
    List.append_assoc]
  · apply List.append_ne_nil_of_left_ne_nil hopen
  · decide

theorem fits_iff (h : toks ≠ []) :
  Fits toks ↔ (replacement toks).length < nameReplaceSize
  := by
  rw [length_replacement h]
  rfl

theorem nameReplace_of_fits (h : toks ≠ []) (hfits : Fits toks) :
  nameReplace toks = some (replacement toks)
  := by
  rw [nameReplace_eq h, inArray, if_pos ((fits_iff h).mp hfits)]

theorem nameReplace_of_not_fits (h : toks ≠ []) (hfits : ¬ Fits toks) :
  nameReplace toks = none
  := by
  rw [nameReplace_eq h, inArray, if_neg ((fits_iff h).not.mp hfits)]

/-- The text that is built for options with at least one language is the expression for the
languages exactly when that fits into the array.  Otherwise the function writes behind the
array. -/
theorem nameReplace_fits_iff (parameter : List UInt8) (h : Bytes.tokens 44 parameter ≠ []) :
  (nameReplace (Bytes.tokens 44 parameter) = some (replacement (Bytes.tokens 44 parameter)) ↔
      Fits (Bytes.tokens 44 parameter)) ∧
    (¬ Fits (Bytes.tokens 44 parameter) → nameReplace (Bytes.tokens 44 parameter) = none)
  := by
  refine ⟨⟨?_, nameReplace_of_fits h⟩, nameReplace_of_not_fits h⟩
  intro htext
  by_contra hfits
  rw [nameReplace_of_not_fits h hfits] at htext
  contradiction

/-- Options with three languages are translated. -/
theorem nameReplace_fits_iff_sample :
  nameReplace (Bytes.tokens 44 (ofString "en,de,_")) =
    some (ofString ", coalesce(tags->'name:en',tags->'name:de',name) as name")
  := by
  have htokens : Bytes.tokens 44 (ofString "en,de,_") ≠ [] := by decide
  have hfits : Fits (Bytes.tokens 44 (ofString "en,de,_")) := by decide
  have htext : replacement (Bytes.tokens 44 (ofString "en,de,_")) =
      ofString ", coalesce(tags->'name:en',tags->'name:de',name) as name" := by
    decide +kernel
  rw [← htext]
  apply (nameReplace_fits_iff (ofString "en,de,_") htokens).1.mpr hfits

/-- A map with parameters. -/
def sampleSection : RenderdConfig.IniSection where
  name := ofString "osm"
  getstring := fun key =>
    if key = "uri" then some (ofString "/osm/")
    else if key = "parameterize_style" then some (ofString "language")
    else none
  getint := fun _ => none
  getdouble := fun _ => none
  name_nonzero := TileModule.zero_notMem_osm

/-- The options that a request for a tile puts into the command for the render daemon. -/
def requestOptions (uri : List UInt8) : Option (List UInt8) := do
  let (_, t) ← TileModule.sampleTranslation [sampleSection] uri
  if t.status = .ok .tileServe then do
    let rdata ← t.rdata
    let cmd ← rdata.cmd
    return cmd.optionsString
  else none

/-- A request with sixteen languages of one letter makes the function write behind the array. -/
theorem nameReplace_overrun :
  requestOptions (ofString "/osm/a,b,c,d,e,f,g,h,i,j,k,l,m,n,o,p/0/0/0.png") =
      some (ofString "a,b,c,d,e,f,g,h,i,j,k,l,m,n,o,p") ∧
    nameReplace (Bytes.tokens 44 (ofString "a,b,c,d,e,f,g,h,i,j,k,l,m,n,o,p")) = none
  := by
  constructor
  · decide +kernel
  · decide +kernel

/-! ### The literals of the text -/

open QuotedText

/-- The pieces of the expression for a language. -/
def tokenPieces (tok : List UInt8) : List (Piece UInt8) :=
  if tok = ofString "_" then chars (ofString "name")
  else chars (ofString "tags->") ++ [.literal (ofString "name:" ++ tok)]

/-- The pieces of the expression for the languages: a literal for every language, and outside of
the literals the text that the function writes. -/
def pieces (toks : List (List UInt8)) : List (Piece UInt8) :=
  chars (ofString ", coalesce(") ++
    ([.char 44].intercalate (toks.map tokenPieces) ++ chars (ofString ") as name"))

/-- A language without quotes is a literal. -/
theorem lex_translation (h : 39 ∉ tok) (ht : ∀ c ∈ t.head?, c ≠ 39) :
  lex 39 (translation tok ++ t) = (lex 39 t).map (tokenPieces tok ++ ·)
  := by
  rw [translation, tokenPieces]
  split_ifs with htok
  · apply lex_append_chars (by decide)
  · have hliteral : 39 ∉ ofString "name:" ++ tok := by
      rw [List.mem_append, not_or]
      exact ⟨by decide, h⟩
    have htext : ofString "tags->'name:" ++ (tok ++ ofString "'") ++ t =
        ofString "tags->" ++ (39 :: (ofString "name:" ++ tok ++ 39 :: t)) := by
      simp only [List.append_assoc]
      rfl
    rw [htext, lex_append_chars (by decide), lex_literal hliteral ht, Option.map_map]
    apply congrArg (Option.map · _)
    funext ps
    rw [List.append_assoc]
    rfl

/-- The separator stands between the first part and the rest. -/
theorem intercalate_map_cons {β : Type} {sep : List β} {f : List UInt8 → List β}
    {tok' : List UInt8} :
  sep.intercalate ((tok :: tok' :: toks).map f) =
    f tok ++ sep ++ sep.intercalate ((tok' :: toks).map f)
  := List.intercalate_cons_cons

/-- Languages without quotes are literals. -/
theorem lex_intercalate (h : ∀ tok ∈ toks, 39 ∉ tok) (ht : ∀ c ∈ t.head?, c ≠ 39) :
  lex 39 ([44].intercalate (toks.map translation) ++ t) =
    (lex 39 t).map ([.char 44].intercalate (toks.map tokenPieces) ++ ·)
  := by
  induction toks with
  | nil => simp
  | cons tok toks ih =>
      obtain ⟨htok, htoks⟩ := List.forall_mem_cons.mp h
      cases toks with
      | nil =>
          rw [List.map_singleton, List.map_singleton, List.intercalate_singleton,
            List.intercalate_singleton]
          apply lex_translation htok ht
      | cons tok' toks =>
          have hcomma : ∀ c ∈ ([44] ++ ([44].intercalate ((tok' :: toks).map translation) ++
              t)).head?, c ≠ 39 := by
            simp
          rw [intercalate_map_cons, intercalate_map_cons, List.append_assoc, List.append_assoc,
            lex_translation htok hcomma,
            lex_append_chars (by decide), ih htoks, Option.map_map, Option.map_map]
          simp [Function.comp_def, chars]

/-- Without quotes in the languages, the expression has the pieces that it should have, whatever
follows it. -/
theorem lex_replacement_append (h : ∀ tok ∈ toks, 39 ∉ tok) :
  lex 39 (replacement toks ++ t) = (lex 39 t).map (pieces toks ++ ·)
  := by
  have hclose : ∀ c ∈ (ofString ") as name" ++ t).head?, c ≠ 39 := by
    rintro c ⟨⟩
    decide
  rw [replacement, pieces, List.append_assoc, List.append_assoc, lex_append_chars (by decide),
    lex_intercalate h hclose, lex_append_chars (by decide), Option.map_map, Option.map_map]
  simp [Function.comp_def]

/-- The number of quotes in the languages. -/
def quotes (toks : List (List UInt8)) : ℕ :=
  (toks.map (List.count 39)).sum

/-- The pieces of the expression for a language, written out, are longer than the expression by
the quotes in the language. -/
theorem length_unlex_tokenPieces :
  (unlex 39 (tokenPieces tok)).length = (translation tok).length + tok.count 39
  := by
  rw [tokenPieces, translation]
  split_ifs with htok
  · rw [unlex_chars, htok]
    rfl
  · have hopen : (ofString "tags->").length = 6 ∧ (ofString "tags->'name:").length = 12 ∧
        (ofString "name:").length = 5 ∧ (ofString "'").length = 1 := ⟨rfl, rfl, rfl, rfl⟩
    have hcount : (ofString "name:").count 39 = 0 := by decide
    rw [unlex_append, unlex_chars, unlex_literal, List.length_append, List.length_append,
      List.length_cons, length_escape, List.length_append, List.count_append, hcount,
      List.length_append, List.length_append, List.length_singleton]
    omega

/-- The pieces for the languages, written out, are longer than the expressions by the quotes in
the languages. -/
theorem length_unlex_intercalate :
  (unlex 39 ([.char 44].intercalate (toks.map tokenPieces))).length =
    ([44].intercalate (toks.map translation)).length + quotes toks
  := by
  induction toks with
  | nil => rfl
  | cons tok toks ih =>
      have hquotes : quotes (tok :: toks) = tok.count 39 + quotes toks := List.sum_cons
      rw [hquotes]
      cases toks with
      | nil =>
          rw [List.map_singleton, List.map_singleton, List.intercalate_singleton,
            List.intercalate_singleton]
          apply length_unlex_tokenPieces
      | cons tok' toks =>
          have hcomma : (unlex 39 [.char (44 : UInt8)]).length = 1 := rfl
          rw [intercalate_map_cons, intercalate_map_cons, unlex_append, unlex_append,
            List.length_append, List.length_append,
            List.length_append, List.length_append, ih, length_unlex_tokenPieces, hcomma,
            List.length_singleton]
          omega

/-- The pieces of the text, written out, are longer than the text by the quotes in the
languages. -/
theorem length_unlex_pieces :
  (unlex 39 (pieces toks)).length = (replacement toks).length + quotes toks
  := by
  rw [pieces, replacement, unlex_append, unlex_append, unlex_chars, unlex_chars,
    List.length_append, List.length_append, List.length_append, List.length_append,
    length_unlex_intercalate]
  omega

/-- The expression for the languages has the pieces that it should have exactly when there are no
quotes in the languages. -/
theorem lex_replacement_iff :
  lex 39 (replacement toks) = some (pieces toks) ↔ ∀ tok ∈ toks, 39 ∉ tok
  := by
  constructor
  · intro h tok htok hquote
    have hlength := congrArg List.length (unlex_lex h)
    rw [length_unlex_pieces] at hlength
    have hpos : 0 < tok.count 39 := List.count_pos_iff.mpr hquote
    have hle : tok.count 39 ≤ quotes toks :=
      List.single_le_sum (by simp) _ (List.mem_map_of_mem htok)
    omega
  · intro h
    have hlex := lex_replacement_append (t := []) h
    rw [List.append_nil] at hlex
    rw [hlex]
    simp [lex, lexFrom]

/-- The text for options that fit has one literal for every language, with the name of the
language in it, and outside of the literals only what the function writes, exactly when there is
no quote in the options.  Then the same holds in the table of a data source in which the place
of the text is outside of literals. -/
theorem literals_iff (parameter : List UInt8) (h : Bytes.tokens 44 parameter ≠ [])
    (hfits : Fits (Bytes.tokens 44 parameter)) :
  ∃ text, nameReplace (Bytes.tokens 44 parameter) = some text ∧
    (lex 39 text = some (pieces (Bytes.tokens 44 parameter)) ↔ 39 ∉ parameter) ∧
    (39 ∉ parameter → ∀ table before after ps,
      Bytes.splitFirst (ofString ",name") table = some (before, after) → lex 39 before = some ps →
      lex 39 (parameterizeTable text table) =
        (lex 39 after).map (ps ++ pieces (Bytes.tokens 44 parameter) ++ ·))
  := by
  have hquote : (∀ tok ∈ Bytes.tokens 44 parameter, 39 ∉ tok) ↔ 39 ∉ parameter := by
    rw [← Bytes.exists_mem_tokens (by decide : (39 : UInt8) ≠ 44)]
    simp
  refine ⟨replacement (Bytes.tokens 44 parameter), ?_, ?_, ?_⟩
  · apply nameReplace_of_fits h hfits
  · rw [lex_replacement_iff, hquote]
  · intro hnone table before after ps hsplit hbefore
    have hcomma : ∀ c ∈ (replacement (Bytes.tokens 44 parameter) ++ after).head?, c ≠ 39 := by
      rintro c ⟨⟩
      decide
    rw [parameterizeTable, hsplit]
    dsimp only
    rw [lex_append hbefore hcomma, lex_replacement_append (hquote.mpr hnone), Option.map_map]
    simp [Function.comp_def]

/-- The table of a data source with two languages. -/
theorem literals_iff_sample :
  ∃ text, nameReplace (Bytes.tokens 44 (ofString "en,de")) = some text ∧
    lex 39 (parameterizeTable text (ofString "(select way,name from line where a='b') as t")) =
      some (chars (ofString "(select way, coalesce(tags->") ++ [.literal (ofString "name:en")] ++
        chars (ofString ",tags->") ++ [.literal (ofString "name:de")] ++
        chars (ofString ") as name from line where a=") ++ [.literal (ofString "b")] ++
        chars (ofString ") as t"))
  := by
  have htokens : Bytes.tokens 44 (ofString "en,de") ≠ [] := by decide
  have hfits : Fits (Bytes.tokens 44 (ofString "en,de")) := by decide
  obtain ⟨text, htext, -, htable⟩ := literals_iff (ofString "en,de") htokens hfits
  have hsplit : Bytes.splitFirst (ofString ",name")
      (ofString "(select way,name from line where a='b') as t") =
        some (ofString "(select way", ofString " from line where a='b') as t") := by
    decide +kernel
  have hbefore : lex 39 (ofString "(select way") = some (chars (ofString "(select way")) := by
    decide +kernel
  use text, htext
  rw [htable (by decide) _ _ _ _ hsplit hbefore]
  decide +kernel

/-- A request with quotes in its options puts text of its own outside of the literals. -/
theorem literal_escaped :
  requestOptions (ofString "/osm/x'||1||'y/0/0/0.png") = some (ofString "x'||1||'y") ∧
    ∃ text, nameReplace (Bytes.tokens 44 (ofString "x'||1||'y")) = some text ∧
      lex 39 text = some (chars (ofString ", coalesce(tags->") ++ [.literal (ofString "name:x")] ++
        chars (ofString "||1||") ++ [.literal (ofString "y")] ++ chars (ofString ") as name"))
  := by
  refine ⟨?_, ofString ", coalesce(tags->'name:x'||1||'y') as name", ?_, ?_⟩
  · decide +kernel
  · decide +kernel
  · decide +kernel

end ParameterizeStyle
