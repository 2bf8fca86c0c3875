import Mathlib.Data.List.Forall2
import Mathlib.Data.Rat.Defs
import Mathlib.Tactic.SplitIfs
import ModTile.Protocol.Basic

/-!
# The configuration of maps

The maps that `process_map_sections` reads from a configuration file.  Every section but that
of mapnik and those of the daemon is a map.  When the value of a key is not accepted, or the
path of a map is the parent of that of a later one, the program prints a message and exits.

A configuration file is the list of its sections.  What `iniparser` returns for the keys of a
section is given by functions.
-/

namespace RenderdConfig

/-! ### Zoom levels -/

/-- The reasons to reject the zoom levels of a map. -/
inductive ZoomError where
  | maxTooSmall (maxzoom : ℤ)
  | maxTooLarge (maxzoom : ℤ)
  | minTooSmall (minzoom : ℤ)
  | minTooLarge (minzoom maxzoom : ℤ)
  deriving DecidableEq

/-- The message for an error. -/
def ZoomError.message : ZoomError → String
  | maxTooSmall maxzoom =>
      s!"Specified max zoom ({maxzoom}) is too small, must be greater than or equal to 0."
  | maxTooLarge maxzoom =>
      s!"Specified max zoom ({maxzoom}) is too large, must be less than or equal to {maxZoom}."
  | minTooSmall minzoom =>
      s!"Specified min zoom ({minzoom}) is too small, must be greater than or equal to 0."
  | minTooLarge minzoom maxzoom =>
      s!"Specified min zoom ({minzoom}) is larger than max zoom ({maxzoom})."

/-- The zoom levels of a map section: the values of `maxzoom` and `minzoom` if the section has
them, and the defaults otherwise. -/
def processZooms (maxzoom minzoom : Option ℤ) : Except ZoomError (ℤ × ℤ) :=
  let maxzoom := maxzoom.getD maxZoom
  let minzoom := minzoom.getD 0
  if maxzoom < 0 then .error (.maxTooSmall maxzoom)
  else if maxzoom > maxZoom then .error (.maxTooLarge maxzoom)
  else if minzoom < 0 then .error (.minTooSmall minzoom)
  else if minzoom > maxzoom then .error (.minTooLarge minzoom maxzoom)
  else .ok (maxzoom, minzoom)

/-- The zoom levels that are accepted are in order. -/
theorem processZooms_bounds {maxzoom minzoom : Option ℤ} {max min : ℤ}
    (h : processZooms maxzoom minzoom = .ok (max, min)) :
  0 ≤ min ∧ min ≤ max ∧ max ≤ maxZoom
  := by
  rw [processZooms] at h
  split_ifs at h
  obtain ⟨hmax, hmin⟩ := Prod.mk.inj (Except.ok.inj h)
  omega

/-! ### Scale factors -/

/-- The value of a `double`. -/
inductive Double where
  | nan
  | infinity (negative : Bool)
  | finite (q : ℚ)
  deriving DecidableEq

namespace Double

/-- The comparison of two values, which fails when one of them is not a number. -/
def lt : Double → Double → Bool
  | nan, _ | _, nan => false
  | infinity a, infinity b => a && !b
  | infinity a, finite _ => a
  | finite _, infinity b => !b
  | finite p, finite q => p < q

/-- The value of the constant `0.1`. -/
def tenth : Double := finite (3602879701896397 / 36028797018963968)

/-- A value as `%lf` prints it: six decimals, rounded to the nearest and halves to even. -/
def format : Double → String
  | nan => "nan"
  | infinity negative => if negative then "-inf" else "inf"
  | finite q =>
      let scaled := q.num.natAbs * 1000000
      let low := scaled / q.den
      let twice := 2 * (scaled % q.den)
      let n := if twice < q.den ∨ twice = q.den ∧ low % 2 = 0 then low else low + 1
      let decimals := toString (n % 1000000)
      (if q.num < 0 then "-" else "") ++ toString (n / 1000000) ++ "." ++
        "".pushn '0' (6 - decimals.length) ++ decimals

end Double

/-! ### Map sections -/

/-- The largest number of map sections. -/
def xmlconfigsMax : ℕ := 100

/-- The length to which the value of `type` is cut. -/
def inilineMax : ℕ := 256

/-- The length to which the parts of the value of `type` are cut. -/
def iniTypePartMaxlen : ℕ := 64

/-- A section of a configuration file: its name, and the values of the keys that it has. -/
structure IniSection where
  name : List UInt8
  getstring : String → Option (List UInt8)
  getint : String → Option ℤ
  getdouble : String → Option Double
  /-- A name is a C string. -/
  name_nonzero : 0 ∉ name

/-- `xmlconfigitem`: a map of the configuration. -/
structure XmlConfigItem where
  attribution : List UInt8
  cors : List UInt8
  description : List UInt8
  fileExtension : List UInt8
  host : List UInt8
  htcpip : List UInt8
  mimeType : List UInt8
  outputFormat : List UInt8
  parameterization : List UInt8
  serverAlias : List UInt8
  tileDir : List UInt8
  xmlfile : List UInt8
  xmlname : List UInt8
  xmluri : List UInt8
  scaleFactor : Double
  aspectX : ℤ
  aspectY : ℤ
  maxZoom : ℤ
  minZoom : ℤ
  numThreads : ℤ
  tilePxSize : ℤ

/-- The reasons to reject a configuration file. -/
inductive MapError where
  | tooManySections
  | scaleTooSmall (scale : Double)
  | scaleTooLarge (scale : Double)
  | zoom (e : ZoomError)
  | typeTooManyParts (iniType : List UInt8)
  | typeTooFewParts (iniType : List UInt8)
  | noSections (configFileName : List UInt8)
  | parentUri (parent child : XmlConfigItem)

namespace MapError

open Bytes (ofString)

/-- The message for an error. -/
def message : MapError → List UInt8
  | tooManySections =>
      ofString s!"Can't handle more than {xmlconfigsMax} map config sections"
  | scaleTooSmall scale =>
      ofString ("Specified scale factor (" ++ scale.format ++
        ") is too small, must be greater than or equal to " ++ Double.tenth.format ++ ".")
  | scaleTooLarge scale =>
      ofString ("Specified scale factor (" ++ scale.format ++
        ") is too large, must be less than or equal to " ++ (Double.finite 8).format ++ ".")
  | zoom e => ofString e.message
  | typeTooManyParts iniType =>
      ofString "Specified type (" ++ iniType ++ ofString (") has too many parts, there must be " ++
        "no more than 3, e.g., 'png image/png png256'.")
  | typeTooFewParts iniType =>
      ofString "Specified type (" ++ iniType ++ ofString (") has too few parts, there must be " ++
        "at least 2, e.g., 'png image/png'.")
  | noSections configFileName =>
      ofString "No map config sections were found in file: " ++ configFileName
  | parentUri parent child =>
      ofString "Specified URI path ('" ++ parent.xmluri ++ ofString "' in map section '" ++
        parent.xmlname ++ ofString ("') must not be the parent of any subsequent map config " ++
        "section's URI path, e.g., '") ++ child.xmluri ++ ofString "' in map section '" ++
        child.xmlname ++ ofString "'."

/-- The status with which the program exits. -/
def exitStatus : MapError → ℕ
  | noSections _ => 1
  | _ => 7

end MapError

/-- A copy of a string, cut to a length. -/
def copyString (src : List UInt8) (maxlen : ℕ) : List UInt8 := src.take maxlen

/-- The value of a key, or the default. -/
def processConfigString (sec : IniSection) (name : String) (notfound : List UInt8)
    (maxlen : ℕ) : List UInt8 :=
  copyString ((sec.getstring name).getD notfound) maxlen

/-- The value of a key, or the default, with a slash at its end if there is room for it. -/
def processConfigStringWithTrailingSlash (sec : IniSection) (name : String)
    (notfound : List UInt8) (maxlen : ℕ) : List UInt8 :=
  let src := (sec.getstring name).getD notfound
  if (src.take maxlen).getLast? ≠ some 47 then copyString (src ++ [47]) maxlen
  else copyString src maxlen

/-- The file extension, the media type and the output format in the value of `type`. -/
def processType (iniType : List UInt8) : Except MapError (List UInt8 × List UInt8 × List UInt8) :=
  match (Bytes.tokens 32 iniType).map (copyString · iniTypePartMaxlen) with
  | [] | [_] => .error (.typeTooFewParts iniType)
  | [fileExtension, mimeType] => .ok (fileExtension, mimeType, Bytes.ofString "png256")
  | [fileExtension, mimeType, outputFormat] => .ok (fileExtension, mimeType, outputFormat)
  | _ => .error (.typeTooManyParts iniType)

/-- The zoom levels, with the error of the file. -/
def processMapZooms (sec : IniSection) : Except MapError (ℤ × ℤ) :=
  (processZooms (sec.getint "maxzoom") (sec.getint "minzoom")).mapError .zoom

/-- The scale factor. -/
def processScale (sec : IniSection) : Except MapError Double :=
  let scale := (sec.getdouble "scale").getD (.finite 1)
  if scale.lt .tenth then .error (.scaleTooSmall scale)
  else if Double.lt (.finite 8) scale then .error (.scaleTooLarge scale)
  else .ok scale

/-- The map of a section. -/
def processMapSection (defaultTileDir : List UInt8) (numThreads : ℤ) (sec : IniSection) :
    Except MapError XmlConfigItem := do
  let scale ← processScale sec
  let (maxzoom, minzoom) ← processMapZooms sec
  let (fileExtension, mimeType, outputFormat) ← processType
    (processConfigString sec "type" (Bytes.ofString "png image/png png256") inilineMax)
  return {
    xmlname := copyString sec.name xmlconfigMax
    aspectX := (sec.getint "aspectx").getD 1
    aspectY := (sec.getint "aspecty").getD 1
    tilePxSize := (sec.getint "tilesize").getD 256
    attribution := processConfigString sec "attribution" [] pathMax
    cors := processConfigString sec "cors" [] pathMax
    description := processConfigString sec "description" [] pathMax
    host := processConfigString sec "host" [] pathMax
    htcpip := processConfigString sec "htcphost" [] pathMax
    parameterization := processConfigString sec "parameterize_style" [] pathMax
    serverAlias := processConfigString sec "server_alias" [] pathMax
    tileDir := processConfigString sec "tiledir" defaultTileDir pathMax
    xmlfile := processConfigString sec "xml" [] pathMax
    xmluri := processConfigStringWithTrailingSlash sec "uri" [] pathMax
    scaleFactor := scale
    maxZoom := maxzoom
    minZoom := minzoom
    fileExtension := fileExtension
    mimeType := mimeType
    outputFormat := outputFormat
    numThreads := numThreads }

/-- The section is that of a map. -/
def isMapSection (sec : IniSection) : Bool :=
  !Bytes.samePrefix 7 sec.name (Bytes.ofString "renderd") && sec.name ≠ Bytes.ofString "mapnik"

/-- The path of the first map is a prefix of that of the second. -/
def isParent (m m' : XmlConfigItem) : Bool :=
  Bytes.samePrefix (min m.xmluri.length pathMax) m.xmluri m'.xmluri

/-- The test that the path of no map is the parent of that of a later one. -/
def checkUris : List XmlConfigItem → Except MapError Unit
  | [] => .ok ()
  | m :: maps =>
      match maps.find? (isParent m) with
      | some m' => .error (.parentUri m m')
      | none => checkUris maps

/-- The maps of the sections from the given number on. -/
def processSections (defaultTileDir : List UInt8) (numThreads : ℤ) :
    ℕ → List IniSection → Except MapError (List XmlConfigItem)
  | _, [] => .ok []
  | mapSectionNum, sec :: secs =>
      if mapSectionNum ≥ xmlconfigsMax then .error .tooManySections
      else do
        let m ← processMapSection defaultTileDir numThreads sec
        let maps ← processSections defaultTileDir numThreads (mapSectionNum + 1) secs
        return m :: maps

/-- The maps of a configuration file. -/
def processMapSections (ini : List IniSection) (configFileName defaultTileDir : List UInt8)
    (numThreads : ℤ) : Except MapError (List XmlConfigItem) := do
  let maps ← processSections defaultTileDir numThreads 0 (ini.filter isMapSection)
  if maps.isEmpty then .error (.noSections configFileName)
  else do
    checkUris maps
    return maps

/-! ### Accepted configurations -/

variable {ini secs : List IniSection} {sec : IniSection} {configFileName tileDir : List UInt8}
  {numThreads : ℤ} {m : XmlConfigItem} {maps : List XmlConfigItem}

/-- A computation in two steps succeeds when both of them do. -/
theorem bind_eq_ok {ε α β : Type} {a : Except ε α} {f : α → Except ε β} {b : β}
    (h : (a >>= f) = .ok b) :
  ∃ r, a = .ok r ∧ f r = .ok b
  := by
  cases a with
  | error e => contradiction
  | ok r => exact ⟨r, rfl, h⟩

/-- A computation that has a result succeeds with it. -/
theorem eq_ok_of_toOption {ε α : Type} {a : Except ε α} {b : α} (h : a.toOption = some b) :
  a = .ok b
  := by
  cases a with
  | error e => contradiction
  | ok r =>
      obtain rfl := Option.some.inj h
      rfl

/-- The name and the path of the map of a section. -/
theorem processMapSection_spec (h : processMapSection tileDir numThreads sec = .ok m) :
  m.xmlname = copyString sec.name xmlconfigMax ∧
    m.xmluri = processConfigStringWithTrailingSlash sec "uri" [] pathMax
  := by
  obtain ⟨scale, -, h⟩ := bind_eq_ok h
  obtain ⟨zooms, -, h⟩ := bind_eq_ok h
  obtain ⟨types, -, h⟩ := bind_eq_ok h
  obtain rfl := Except.ok.inj h
  exact ⟨rfl, rfl⟩

/-- The zoom levels of the map of a section are in order. -/
theorem processMapSection_zooms (h : processMapSection tileDir numThreads sec = .ok m) :
  0 ≤ m.minZoom ∧ m.minZoom ≤ m.maxZoom ∧ m.maxZoom ≤ maxZoom
  := by
  obtain ⟨scale, -, h⟩ := bind_eq_ok h
  obtain ⟨⟨maxzoom, minzoom⟩, hzooms, h⟩ := bind_eq_ok h
  obtain ⟨types, -, h⟩ := bind_eq_ok h
  obtain rfl := Except.ok.inj h
  rw [processMapZooms] at hzooms
  cases hresult : processZooms (sec.getint "maxzoom") (sec.getint "minzoom") with
  | error e =>
      rw [hresult] at hzooms
      contradiction
  | ok zooms =>
      rw [hresult] at hzooms
      obtain rfl := Except.ok.inj hzooms
      apply processZooms_bounds hresult

/-- Every map is that of its section. -/
theorem processSections_spec {num : ℕ}
    (h : processSections tileDir numThreads num secs = .ok maps) :
  List.Forall₂ (fun sec m => processMapSection tileDir numThreads sec = .ok m) secs maps
  := by
  induction secs generalizing num maps with
  | nil =>
      obtain rfl := Except.ok.inj h
      apply List.Forall₂.nil
  | cons sec secs ih =>
      rw [processSections] at h
      split_ifs at h
      obtain ⟨m, hm, h⟩ := bind_eq_ok h
      obtain ⟨ms, hms, h⟩ := bind_eq_ok h
      obtain rfl := Except.ok.inj h
      exact .cons hm (ih hms)

/-- A path is the parent of those that it is a prefix of. -/
theorem isParent_iff {m m' : XmlConfigItem} (h : m.xmluri.length ≤ pathMax) :
  isParent m m' = true ↔ m.xmluri <+: m'.xmluri
  := by
  rw [isParent, Nat.min_eq_left h]
  apply Bytes.samePrefix_length

/-- The test succeeds only if no path is the parent of a later one. -/
theorem checkUris_spec (h : checkUris maps = .ok ()) :
  maps.Pairwise fun m m' => isParent m m' = false
  := by
  induction maps with
  | nil => apply List.Pairwise.nil
  | cons m maps ih =>
      rw [checkUris] at h
      split at h
      · contradiction
      · rename_i hnone
        apply List.Pairwise.cons _ (ih h)
        intro m' hm'
        simpa using List.find?_eq_none.mp hnone m' hm'

/-- The maps of a configuration that is accepted. -/
theorem processMapSections_spec
    (h : processMapSections ini configFileName tileDir numThreads = .ok maps) :
  List.Forall₂ (fun sec m => processMapSection tileDir numThreads sec = .ok m)
      (ini.filter isMapSection) maps ∧
    maps.Pairwise fun m m' => isParent m m' = false
  := by
  obtain ⟨ms, hms, h⟩ := bind_eq_ok h
  split_ifs at h
  obtain ⟨⟨⟩, huris, h⟩ := bind_eq_ok h
  obtain rfl := Except.ok.inj h
  exact ⟨processSections_spec hms, checkUris_spec huris⟩

/-- The path of a map is not longer than a path may be, and ends in a slash if it is shorter. -/
theorem xmluri_spec (h : processMapSection tileDir numThreads sec = .ok m) :
  m.xmluri.length ≤ pathMax ∧ (m.xmluri.getLast? = some 47 ∨ m.xmluri.length = pathMax)
  := by
  rw [(processMapSection_spec h).2, processConfigStringWithTrailingSlash]
  generalize (sec.getstring "uri").getD [] = src
  split_ifs with hslash
  · constructor
    · apply List.length_take_le
    · by_cases hlen : src.length < pathMax
      · left
        rw [copyString, List.take_of_length_le]
        · simp
        · rw [List.length_append, List.length_singleton]
          apply hlen
      · right
        rw [copyString, List.length_take, List.length_append, List.length_singleton]
        omega
  · constructor
    · apply List.length_take_le
    · left
      rw [copyString]
      simpa using hslash

/-- The names of the maps are those of their sections, cut to a length. -/
theorem processMapSections_xmlname
    (h : processMapSections ini configFileName tileDir numThreads = .ok maps) :
  maps.map XmlConfigItem.xmlname =
    (ini.filter isMapSection).map fun sec => copyString sec.name xmlconfigMax
  := by
  replace h := (processMapSections_spec h).1
  generalize ini.filter isMapSection = secs at h
  induction h with
  | nil => rfl
  | cons hsec _ ih => rw [List.map_cons, List.map_cons, ih, (processMapSection_spec hsec).1]

/-- What holds of the map of every section holds of all maps. -/
theorem forall_mem_of_sections {P : XmlConfigItem → Prop}
    (h : processMapSections ini configFileName tileDir numThreads = .ok maps)
    (hP : ∀ sec m, processMapSection tileDir numThreads sec = .ok m → P m) :
  ∀ m ∈ maps, P m
  := by
  replace h := (processMapSections_spec h).1
  generalize ini.filter isMapSection = secs at h
  induction h with
  | nil => simp
  | cons hsec _ ih =>
      rw [List.forall_mem_cons]
      exact ⟨hP _ _ hsec, ih⟩

/-- The paths of the maps are not longer than a path may be, and end in a slash if they are
shorter. -/
theorem processMapSections_xmluri
    (h : processMapSections ini configFileName tileDir numThreads = .ok maps) :
  ∀ m ∈ maps, m.xmluri.length ≤ pathMax ∧
    (m.xmluri.getLast? = some 47 ∨ m.xmluri.length = pathMax)
  := forall_mem_of_sections h fun _ _ hsec => xmluri_spec hsec

/-- The zoom levels of the maps are in order. -/
theorem processMapSections_zooms
    (h : processMapSections ini configFileName tileDir numThreads = .ok maps) :
  ∀ m ∈ maps, 0 ≤ m.minZoom ∧ m.minZoom ≤ m.maxZoom ∧ m.maxZoom ≤ maxZoom
  := forall_mem_of_sections h fun _ _ hsec => processMapSection_zooms hsec

end RenderdConfig
