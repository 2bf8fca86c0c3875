import ModTile.TileModule.Translate

/-!
# The local arrays of the translation

`tile_translate` does not initialise the arrays `parameters`, `option` and `extension`.  Before
`parameters` is copied into the command it has been written, and `option` is compared only for
a path that has a part for it.  The array `extension` is written only when the last part of the
coordinates has a dot, but it is compared for every path of a tile.  So the translation depends
on what was on the stack exactly for the paths of a tile without an extension.
-/

namespace TileModule

open Store

/-- The part of a path that has the last coordinate and the extension. -/
def lastPart (config : TileConfigRec) (elts : List (List UInt8)) : Option (List UInt8) :=
  if config.enableOptions ≠ 0 then elts[3]? else elts[2]?

/-- The path is that of a tile whose last part has no extension, so that the array for it is
compared as it was found.  Some content of the array is the extension of the layer. -/
structure LeavesExtension (config : TileConfigRec) (elts : List (List UInt8)) : Prop where
  read : (readTilePath zeroLocals config elts).isSome
  noDot : ∀ part ∈ lastPart config elts, 46 ∉ part
  attainable : 0 ∉ config.fileExtension

/-- The path has a part for the option. -/
def HasOption (config : TileConfigRec) (parts : ℕ) : Prop :=
  config.enableOptions ≠ 0 ∧ parts = 5 ∨ config.enableOptions = 0 ∧ parts = 4

/-- The arrays after the parts of a path have been stored. -/
def Locals.written (locals : Locals) (parameters part : List UInt8)
    (option : Option (List UInt8)) : Locals where
  parameters := Bytes.storeString parameters locals.parameters
  option := option.elim locals.option (Bytes.storeString · locals.option)
  extension := (getExtension part locals.extension).2
  behind := locals.behind

/-- The extension that is compared. -/
def Locals.extensionString (locals : Locals) : List UInt8 :=
  Bytes.cString (locals.extension.toList ++ locals.behind)

variable {locals locals' : Locals} {config : TileConfigRec} {elts : List (List UInt8)}
  {parameters part : List UInt8} {option : Option (List UInt8)}

/-! ### What is written -/

/-- The text before the extension does not depend on the array. -/
theorem getExtension_fst (ext ext' : List.Vector UInt8 256) :
  (getExtension part ext).1 = (getExtension part ext').1
  := by
  simp only [getExtension]
  split_ifs <;> rfl

/-- The extension is written when there is a dot. -/
theorem extensionString_written_of_mem (h : 46 ∈ part) :
  (locals.written parameters part option).extensionString =
    (locals'.written parameters part option).extensionString
  := by
  simp only [Locals.extensionString, Locals.written, getExtension, if_pos h]
  apply Bytes.cString_storeString_congr

/-- The extension is left as it was when there is no dot. -/
theorem extensionString_written_of_notMem (h : 46 ∉ part) :
  (locals.written parameters part option).extensionString = locals.extensionString
  := by
  simp only [Locals.extensionString, Locals.written, getExtension, if_neg h]

theorem parametersString_written :
  Bytes.cString (locals.written parameters part option).parameters.toList =
    Bytes.cString (locals'.written parameters part option).parameters.toList
  := by
  apply Bytes.cString_storeString_eq

theorem optionString_written (h : option.isSome) :
  Bytes.cString (locals.written parameters part option).option.toList =
    Bytes.cString (locals'.written parameters part option).option.toList
  := by
  obtain ⟨text, rfl⟩ := Option.isSome_iff_exists.mp h
  apply Bytes.cString_storeString_eq

theorem readCoordinates_eq {ver : Int32} {zStr xStr : List UInt8} :
  readCoordinates locals ver parameters zStr xStr part option =
    (safeParseInt zStr).bind fun z => (safeParseInt xStr).bind fun x =>
      (safeParseInt (getExtension part locals.extension).1).bind fun y =>
        some ⟨{ zeroCommand with ver := ver, x := x, y := y, z := z },
          locals.written parameters part option⟩
  := rfl

/-- The coordinates are read whatever the arrays hold. -/
theorem readCoordinates_eq_some {ver : Int32} {zStr xStr : List UInt8} {path : TilePath}
    (h : readCoordinates locals ver parameters zStr xStr part option = some path) :
  path.locals = locals.written parameters part option ∧
    ∀ locals', readCoordinates locals' ver parameters zStr xStr part option =
      some ⟨path.cmd, locals'.written parameters part option⟩
  := by
  rw [readCoordinates_eq] at h
  obtain ⟨z, hz, h⟩ := Option.bind_eq_some_iff.mp h
  obtain ⟨x, hx, h⟩ := Option.bind_eq_some_iff.mp h
  obtain ⟨y, hy, h⟩ := Option.bind_eq_some_iff.mp h
  obtain rfl := Option.some.inj h
  use rfl
  intro locals'
  rw [getExtension_fst _ locals'.extension] at hy
  rw [readCoordinates_eq, hz, hx, Option.bind_some, Option.bind_some, hy, Option.bind_some]

/-- The path of a tile is read whatever the arrays hold. -/
theorem readTilePath_eq_some {path : TilePath} (h : readTilePath locals config elts = some path) :
  ∃ parameters part option, lastPart config elts = some part ∧
    (HasOption config elts.length → option.isSome) ∧
    path.locals = locals.written parameters part option ∧
    ∀ locals', readTilePath locals' config elts =
      some ⟨path.cmd, locals'.written parameters part option⟩
  := by
  simp only [readTilePath] at h ⊢
  split_ifs at h ⊢ with henable
  · match elts with
    | parameters :: z :: x :: y :: rest =>
        obtain ⟨hlocals, hread⟩ := readCoordinates_eq_some h
        refine ⟨parameters, y, rest.head?, by simp [lastPart, henable], ?_, hlocals, hread⟩
        rintro (⟨-, hparts⟩ | ⟨hdisable, -⟩)
        · rw [List.isSome_head?]
          grind
        · contradiction
  · match elts with
    | z :: x :: y :: rest =>
        obtain ⟨hlocals, hread⟩ := readCoordinates_eq_some h
        refine ⟨[], y, rest.head?, by simp [lastPart, henable], ?_, hlocals, hread⟩
        rintro (⟨hable, -⟩ | ⟨-, hparts⟩)
        · contradiction
        · rw [List.isSome_head?]
          grind

/-! ### What is compared -/

section Tile

variable {o : InitOutcome} {configs : List TileConfigRec} {userdata : Userdata} {i parts : ℕ}
  {path path' : TilePath}

/-- The handler depends on the option only for a path that has a part for it. -/
theorem chooseHandler_congr {text text' : List UInt8}
    (h : HasOption config parts → text = text') :
  chooseHandler config parts text = chooseHandler config parts text'
  := by
  by_cases hoption : HasOption config parts
  · rw [h hoption]
  · rw [HasOption] at hoption
    rw [chooseHandler, chooseHandler, if_neg hoption, if_neg hoption]

/-- The translation depends on the strings in the arrays. -/
theorem translateTile_congr (hcmd : path.cmd = path'.cmd)
    (hextension : path.locals.extensionString = path'.locals.extensionString)
    (hparameters : Bytes.cString path.locals.parameters.toList =
      Bytes.cString path'.locals.parameters.toList)
    (hoption : HasOption config parts → Bytes.cString path.locals.option.toList =
      Bytes.cString path'.locals.option.toList) :
  translateTile o configs userdata i config parts path =
    translateTile o configs userdata i config parts path'
  := by
  have hcommand : tileCommand config path = tileCommand config path' := by
    rw [tileCommand, tileCommand, hcmd, hparameters]
  rw [Locals.extensionString, Locals.extensionString] at hextension
  rw [translateTile, translateTile, hextension, hcmd, hcommand, chooseHandler_congr hoption]

/-- A path with another extension is declined. -/
theorem translateTile_of_ne (h : path.locals.extensionString ≠ config.fileExtension) :
  translateTile o configs userdata i config parts path = some ⟨.declined, none, userdata⟩
  := if_pos h

/-- A path with the extension of the layer is not declined, or not before the request is given
its data. -/
theorem translateTile_of_eq (h : path.locals.extensionString = config.fileExtension) :
  translateTile o configs userdata i config parts path ≠ some ⟨.declined, none, userdata⟩
  := by
  rw [Locals.extensionString] at h
  rw [translateTile, if_neg (not_not.mpr h)]
  split_ifs
  · simp
  · split
    · simp
    · split_ifs
      · simp
      · simp

end Tile

/-! ### Stacks -/

theorem length_stack (text : List UInt8) :
  ((text ++ List.replicate 256 0).take 256).length = 256
  := by
  rw [List.length_take, List.length_append, List.length_replicate]
  omega

/-- A stack on which a text is in the place of the extension. -/
def stackWith (text : List UInt8) : Locals :=
  { zeroLocals with
    extension := ⟨(text ++ List.replicate 256 0).take 256, length_stack text⟩
    behind := (text ++ List.replicate 256 0).drop 256 }

theorem extensionString_stackWith {text : List UInt8} (h : 0 ∉ text) :
  (stackWith text).extensionString = text
  := by
  rw [Locals.extensionString, stackWith, List.Vector.toList_mk, List.take_append_drop]
  apply Bytes.cString_append_zero h

/-- A path for which the extension is written, or cannot be that of the layer, is translated in
the same way for all contents of the arrays. -/
theorem translateTile_written {o : InitOutcome} {configs : List TileConfigRec}
    {userdata : Userdata} {i : ℕ} {cmd : Protocol}
    (hleaves : ¬ LeavesExtension config elts) (hread : (readTilePath zeroLocals config elts).isSome)
    (hlast : lastPart config elts = some part)
    (hoption : HasOption config elts.length → option.isSome) :
  translateTile o configs userdata i config elts.length
      ⟨cmd, locals.written parameters part option⟩ =
    translateTile o configs userdata i config elts.length
      ⟨cmd, locals'.written parameters part option⟩
  := by
  by_cases hdot : 46 ∈ part
  · apply translateTile_congr
    · rfl
    · apply extensionString_written_of_mem hdot
    · apply parametersString_written
    · intro h
      apply optionString_written (hoption h)
  · have hzero : 0 ∈ config.fileExtension := by
      by_contra hzero
      apply hleaves ⟨hread, _, hzero⟩
      intro part' hpart'
      rw [Option.mem_def, hlast] at hpart'
      obtain rfl := Option.some.inj hpart'
      apply hdot
    have hne : ∀ locals : Locals, locals.extensionString ≠ config.fileExtension := by
      intro locals heq
      rw [← heq] at hzero
      apply Bytes.zero_notMem_cString hzero
    rw [translateTile_of_ne (hne _), translateTile_of_ne (hne _)]

/-- The path of a layer is read or not, whatever is in the arrays. -/
theorem readTilePath_eq_none (h : readTilePath locals config elts = none) (locals' : Locals) :
  readTilePath locals' config elts = none
  := by
  cases hpath' : readTilePath locals' config elts with
  | none => rfl
  | some path' =>
      obtain ⟨_, _, _, -, -, -, hread⟩ := readTilePath_eq_some hpath'
      rw [hread] at h
      contradiction

/-- The translation for a layer does not depend on the arrays, unless the path is that of a tile
without an extension. -/
theorem translateLayer_congr {uri : List UInt8}
    (h : Bytes.samePrefix 15 (uri.drop config.baseuri.length) (Bytes.ofString "tile-layer.json") =
        false →
      ¬ LeavesExtension config (Bytes.tokens 47 (uri.drop config.baseuri.length))) :
  translateLayer locals o configs uri userdata i config =
    translateLayer locals' o configs uri userdata i config
  := by
  rw [translateLayer, translateLayer]
  dsimp only
  split_ifs with hjson
  · rfl
  · cases hpath : readTilePath locals config
        (Bytes.tokens 47 (uri.drop config.baseuri.length)) with
    | none => rw [readTilePath_eq_none hpath locals']
    | some path =>
        obtain ⟨parameters, part, option, hlast, hoption, hlocals, hread⟩ :=
          readTilePath_eq_some hpath
        have hzero := hread zeroLocals
        rw [hread locals']
        obtain ⟨cmd, written⟩ := path
        subst hlocals
        apply translateTile_written (h (by simpa using hjson)) _ hlast hoption
        rw [hzero]
        rfl

/-- What a request is translated to is the same for all contents of the local arrays exactly
when it is not for a tile without an extension: it is reserved, belongs to no layer, asks for
the description of one, has no tile in it, or has an extension. -/
theorem tileTranslate_eq_iff (o : InitOutcome) (configs : List TileConfigRec) (uri : List UInt8)
    (userdata : Userdata) :
  (∀ locals locals', tileTranslate locals o configs uri userdata =
      tileTranslate locals' o configs uri userdata) ↔
    ∀ i config, reservedHandler uri = none → selectLayer uri 0 configs = some (i, config) →
      Bytes.samePrefix 15 (uri.drop config.baseuri.length) (Bytes.ofString "tile-layer.json") =
        false →
      ¬ LeavesExtension config (Bytes.tokens 47 (uri.drop config.baseuri.length))
  := by
  constructor
  · intro h i config hreserved hselect hjson hleaves
    have hmatch := extensionString_stackWith hleaves.attainable
    have hother : (stackWith (config.fileExtension ++ [1])).extensionString ≠
        config.fileExtension := by
      rw [extensionString_stackWith (by simpa using hleaves.attainable)]
      simp
    obtain ⟨path, hpath⟩ := Option.isSome_iff_exists.mp hleaves.read
    obtain ⟨parameters, part, option, hlast, -, -, hread⟩ := readTilePath_eq_some hpath
    have hdot := hleaves.noDot part hlast
    have heq := h (stackWith config.fileExtension) (stackWith (config.fileExtension ++ [1]))
    simp only [tileTranslate, hreserved, hselect, translateLayer, hjson, Bool.false_eq_true,
      if_false, hread] at heq
    apply translateTile_of_eq _ (heq.trans (translateTile_of_ne _))
    · rw [extensionString_written_of_notMem hdot, hmatch]
    · rw [extensionString_written_of_notMem hdot]
      apply hother
  · intro h locals locals'
    rw [tileTranslate, tileTranslate]
    split
    · rfl
    · rename_i hreserved
      split
      · rfl
      · rename_i i config hselect
        apply translateLayer_congr (h i config hreserved hselect)

/-- The path of a tile without an extension is declined or served, depending on what was on the
stack. -/
theorem tileTranslate_stack :
  ∃ conf, sampleServer.loadTileConfig [] (some sampleFile) = .ok conf ∧
    (tileTranslate zeroLocals ⟨some true, true⟩ conf.configs (Bytes.ofString "/osm/0/0/0")
      none).map Translation.status = some .declined ∧
    (tileTranslate (stackWith (Bytes.ofString "png")) ⟨some true, true⟩ conf.configs
      (Bytes.ofString "/osm/0/0/0") none).map Translation.status = some (.ok .tileServe)
  := by
  have hrun : (sampleServer.loadTileConfig [] (some sampleFile)).toOption.map (fun conf =>
      ((tileTranslate zeroLocals ⟨some true, true⟩ conf.configs (Bytes.ofString "/osm/0/0/0")
          none).map Translation.status,
        (tileTranslate (stackWith (Bytes.ofString "png")) ⟨some true, true⟩ conf.configs
          (Bytes.ofString "/osm/0/0/0") none).map Translation.status)) =
      some (some .declined, some (.ok .tileServe)) := by
    decide +kernel
  obtain ⟨conf, hconf, hstatus⟩ := Option.map_eq_some_iff.mp hrun
  obtain ⟨hdeclined, hserved⟩ := Prod.mk.inj hstatus
  exact ⟨conf, RenderdConfig.eq_ok_of_toOption hconf, hdeclined, hserved⟩

end TileModule
