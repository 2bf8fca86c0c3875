import ModTile.Bytes.Quoted
import ModTile.TileModule.Serve
import ModTile.TileModule.TilePaths

/-!
# The description of a layer

`tile_handler_json` of `mod_tile.c` answers a request for `tile-layer.json` with a page in the
format TileJSON.  Under the name `tiles` it has a template for every host name of the layer, from
which a client makes the address of a tile by filling in the zoom level and the coordinates.  The
page is put together in a buffer of 8 kilobytes.

When the page fits into the buffer and the names in it have no quotes, a client finds the templates
in it.  The addresses that it makes of them are those of the tiles, which the module serves, unless
the layer has parameters: then it declines every one of them.
-/

namespace TileModule

open Bytes (quoted readQuoted Unquoted fill)
open Store

/-- The size of the buffer for the page. -/
def jsonSize : ℕ := 8 * 1024

/-- `strncat(buf, s, 8 * 1024 - strlen(buf) - 1)`. -/
def catJson (buf s : List UInt8) : List UInt8 := buf ++ s.take (jsonSize - buf.length - 1)

/-- The page up to the host names. -/
def jsonHead (config : TileConfigRec) : List UInt8 :=
  Bytes.ofString "\x7b\n\t\"tilejson\": \"2.0.0\",\n\t\"schema\": \"xyz\",\n\t\"name\": \"" ++
    (config.xmlname ++ 34 :: (Bytes.ofString ",\n\t\"description\": \"" ++
    (config.description ++ 34 :: (Bytes.ofString ",\n\t\"attribution\": \"" ++
    (config.attribution ++ 34 :: (Bytes.ofString ",\n\t\"minzoom\": " ++
    (Bytes.signed config.minzoom.toInt ++ (Bytes.ofString ",\n\t\"maxzoom\": " ++
    (Bytes.signed config.maxzoom.toInt ++ Bytes.ofString ",\n\t\"tiles\": [\n")))))))))

/-- The loop over the host names. -/
def jsonHosts (config : TileConfigRec) : List (List UInt8) → List UInt8 → List UInt8
  | [], buf => buf
  | hostname :: hostnames, buf =>
      let buf := catJson buf (Bytes.ofString "\t\t\"")
      let buf := catJson buf hostname
      let buf := catJson buf config.baseuri
      let buf := catJson buf (Bytes.ofString "\x7bz\x7d/\x7bx\x7d/\x7by\x7d.")
      let buf := catJson buf config.fileExtension
      let buf := catJson buf (Bytes.ofString "\"")
      let buf := if hostnames = [] then buf else catJson buf (Bytes.ofString ",")
      jsonHosts config hostnames (catJson buf (Bytes.ofString "\n"))

/-- The page. -/
def jsonPage (config : TileConfigRec) : List UInt8 :=
  catJson (jsonHosts config config.hostnames ((jsonHead config).take (jsonSize - 1)))
    (Bytes.ofString "\t]\n\x7d\n")

/-- The response with the page. -/
def jsonResponse (config : TileConfigRec) (md5 : List UInt8 → List UInt8) (headers : List Header) :
    Response :=
  let buf := jsonPage config
  { status := .ok
    body := some buf
    headers := headers ++
      [("ETag", Bytes.ofString "\"" ++ md5 buf ++ Bytes.ofString "\""),
        ("Content-Type", Bytes.ofString "application/json"),
        ("Content-Length", Bytes.signed buf.length),
        ("Cache-Control", Bytes.ofString "max-age=" ++ Bytes.signed (7 * 24 * 60 * 60))]
    counts := [] }

/-- `tile_handler_json`, for a layer. -/
def tileHandlerJson (config : TileConfigRec) (handler : Option Handler) (r : CorsRequest)
    (md5 : List UInt8 → List UInt8) : Response :=
  if handler ≠ some .tileJson then ⟨.declined, none, [], []⟩
  else
    match config.cors with
    | none => jsonResponse config md5 []
    | some cors =>
        match addCors cors r with
        | (.done, headers) => jsonResponse config md5 headers
        | (status, headers) => ⟨status, none, headers, []⟩

/-! ### The whole page -/

/-- The template for a host name. -/
def jsonTemplate (config : TileConfigRec) (hostname : List UInt8) : List UInt8 :=
  hostname ++ (config.baseuri ++ (Bytes.ofString "\x7bz\x7d/\x7bx\x7d/\x7by\x7d." ++
    config.fileExtension))

/-- The lines with the host names. -/
def hostLines (config : TileConfigRec) : List (List UInt8) → List UInt8
  | [] => []
  | hostname :: hostnames =>
      Bytes.ofString "\t\t\"" ++ (jsonTemplate config hostname ++
        34 :: ((if hostnames = [] then [] else Bytes.ofString ",") ++
          (Bytes.ofString "\n" ++ hostLines config hostnames)))

/-- The page as it is when the buffer is large enough. -/
def wholePage (config : TileConfigRec) : List UInt8 :=
  jsonHead config ++ (hostLines config config.hostnames ++ Bytes.ofString "\t]\n\x7d\n")

variable {config : TileConfigRec}

theorem catJson_take (w s : List UInt8) :
  catJson (w.take (jsonSize - 1)) s = (w ++ s).take (jsonSize - 1)
  := by
  rw [catJson, List.take_append, List.length_take]
  congr 2
  rw [jsonSize]
  omega

/-- The loop adds the lines, as far as they fit. -/
theorem jsonHosts_take (hostnames : List (List UInt8)) (w : List UInt8) :
  jsonHosts config hostnames (w.take (jsonSize - 1)) =
    (w ++ hostLines config hostnames).take (jsonSize - 1)
  := by
  induction hostnames generalizing w with
  | nil => rw [jsonHosts, hostLines, List.append_nil]
  | cons hostname hostnames ih =>
      rw [jsonHosts, hostLines, jsonTemplate]
      simp only [catJson_take]
      split_ifs
      · rw [catJson_take, ih]
        simp [Bytes.ofString]
      · rw [catJson_take, ih]
        simp [Bytes.ofString]

/-- The page is the whole page, as far as it fits. -/
theorem jsonPage_eq :
  jsonPage config = (wholePage config).take (jsonSize - 1)
  := by
  rw [jsonPage, jsonHosts_take, catJson_take, wholePage, List.append_assoc]

/-! ### The strings of the page -/

/-- The names that are printed into the page have no quotes and backslashes. -/
structure PlainNames (config : TileConfigRec) : Prop where
  xmlname : Unquoted config.xmlname
  description : Unquoted config.description
  attribution : Unquoted config.attribution
  baseuri : Unquoted config.baseuri
  fileExtension : Unquoted config.fileExtension
  hostname : ∀ hostname ∈ config.hostnames, Unquoted hostname

/-- The strings up to the templates. -/
def headStrings (config : TileConfigRec) : List (List UInt8) :=
  [Bytes.ofString "tilejson", Bytes.ofString "2.0.0", Bytes.ofString "schema", Bytes.ofString "xyz",
    Bytes.ofString "name", config.xmlname, Bytes.ofString "description", config.description,
    Bytes.ofString "attribution", config.attribution, Bytes.ofString "minzoom",
    Bytes.ofString "maxzoom", Bytes.ofString "tiles"]

theorem readQuoted_signed (n : ℤ) :
  readQuoted .outside (Bytes.signed n) = ([], .outside)
  := Bytes.readQuoted_outside (Bytes.notMem_signed (by decide) (by decide))

theorem readQuoted_jsonHead (h : PlainNames config) :
  readQuoted .outside (jsonHead config) = (headStrings config, .outside)
  := by
  have hname : readQuoted .outside (Bytes.ofString
      "\x7b\n\t\"tilejson\": \"2.0.0\",\n\t\"schema\": \"xyz\",\n\t\"name\": \"") =
      ([Bytes.ofString "tilejson", Bytes.ofString "2.0.0", Bytes.ofString "schema",
        Bytes.ofString "xyz", Bytes.ofString "name"], .inside []) := by
    decide
  have hdescription : readQuoted .outside (Bytes.ofString ",\n\t\"description\": \"") =
      ([Bytes.ofString "description"], .inside []) := by
    decide
  have hattribution : readQuoted .outside (Bytes.ofString ",\n\t\"attribution\": \"") =
      ([Bytes.ofString "attribution"], .inside []) := by
    decide
  have hminzoom : readQuoted .outside (Bytes.ofString ",\n\t\"minzoom\": ") =
      ([Bytes.ofString "minzoom"], .outside) := by
    decide
  have hmaxzoom : readQuoted .outside (Bytes.ofString ",\n\t\"maxzoom\": ") =
      ([Bytes.ofString "maxzoom"], .outside) := by
    decide
  have htiles : readQuoted .outside (Bytes.ofString ",\n\t\"tiles\": [\n") =
      ([Bytes.ofString "tiles"], .outside) := by
    decide
  rw [jsonHead, Bytes.readQuoted_append, hname]
  dsimp only
  rw [Bytes.readQuoted_string h.xmlname, Bytes.readQuoted_append, hdescription]
  dsimp only
  rw [Bytes.readQuoted_string h.description, Bytes.readQuoted_append, hattribution]
  dsimp only
  rw [Bytes.readQuoted_string h.attribution, Bytes.readQuoted_append, hminzoom]
  dsimp only
  rw [Bytes.readQuoted_append, readQuoted_signed]
  dsimp only
  rw [Bytes.readQuoted_append, hmaxzoom]
  dsimp only
  rw [Bytes.readQuoted_append, readQuoted_signed]
  dsimp only
  rw [htiles]
  rfl

theorem unquoted_jsonTemplate (h : PlainNames config) {hostname : List UInt8}
    (hhostname : Unquoted hostname) :
  Unquoted (jsonTemplate config hostname)
  := by
  have htemplate : Unquoted (Bytes.ofString "\x7bz\x7d/\x7bx\x7d/\x7by\x7d.") :=
    ⟨by decide, by decide⟩
  exact hhostname.append (h.baseuri.append (htemplate.append h.fileExtension))

theorem readQuoted_hostLines (h : PlainNames config) {hostnames : List (List UInt8)}
    (hhostnames : ∀ hostname ∈ hostnames, Unquoted hostname) :
  readQuoted .outside (hostLines config hostnames) =
    (hostnames.map (jsonTemplate config), .outside)
  := by
  have hopen : readQuoted .outside (Bytes.ofString "\t\t\"") = ([], .inside []) := by decide
  induction hostnames with
  | nil => rfl
  | cons hostname hostnames ih =>
      have hhostname := hhostnames hostname List.mem_cons_self
      have hrest := ih fun name hname => hhostnames name (List.mem_cons_of_mem _ hname)
      have hcomma : readQuoted .outside (if hostnames = [] then [] else Bytes.ofString ",") =
          ([], .outside) := by
        split_ifs
        · rfl
        · decide
      have hline : readQuoted .outside (Bytes.ofString "\n") = ([], .outside) := by decide
      rw [hostLines, Bytes.readQuoted_append, hopen]
      dsimp only
      rw [Bytes.readQuoted_string (unquoted_jsonTemplate h hhostname), Bytes.readQuoted_append,
        hcomma]
      dsimp only
      rw [Bytes.readQuoted_append, hline]
      dsimp only
      rw [hrest]
      rfl

/-- A client finds the templates in the page. -/
theorem quoted_wholePage (h : PlainNames config) :
  quoted (wholePage config) = headStrings config ++ config.hostnames.map (jsonTemplate config)
  := by
  have hend : readQuoted .outside (Bytes.ofString "\t]\n\x7d\n") = ([], .outside) := by decide
  rw [quoted, wholePage, Bytes.readQuoted_append, readQuoted_jsonHead h]
  dsimp only
  rw [Bytes.readQuoted_append, readQuoted_hostLines h h.hostname]
  dsimp only
  rw [hend, List.append_nil]

/-! ### The addresses -/

/-- The values of the variables in a template. -/
def tileVariables (z x y : ℤ) (c : UInt8) : Option (List UInt8) :=
  if c = 122 then some (Bytes.signed z)
  else if c = 120 then some (Bytes.signed x)
  else if c = 121 then some (Bytes.signed y)
  else none

/-- A template becomes the address of a tile. -/
theorem fill_jsonTemplate {hostname : List UInt8} {z x y : ℤ} (hhostname : 123 ∉ hostname)
    (hbaseuri : 123 ∉ config.baseuri) (hextension : 123 ∉ config.fileExtension) :
  fill (tileVariables z x y) (jsonTemplate config hostname) =
    hostname ++ tilePath config.baseuri config.fileExtension z x y
  := by
  have htemplate : Bytes.ofString "\x7bz\x7d/\x7bx\x7d/\x7by\x7d." =
      [123, 122, 125, 47, 123, 120, 125, 47, 123, 121, 125, 46] := by
    decide
  have hend : fill (tileVariables z x y) config.fileExtension = config.fileExtension := by
    have happend : fill (tileVariables z x y) (config.fileExtension ++ []) = _ :=
      Bytes.fill_append hextension
    rw [List.append_nil] at happend
    exact happend.trans (List.append_nil _)
  have hslash : ∀ s, fill (tileVariables z x y) (47 :: s) = 47 :: fill (tileVariables z x y) s :=
    fun s => Bytes.fill_append (l := [47]) (by decide)
  have hdot : ∀ s, fill (tileVariables z x y) (46 :: s) = 46 :: fill (tileVariables z x y) s :=
    fun s => Bytes.fill_append (l := [46]) (by decide)
  rw [jsonTemplate, tilePath, Bytes.fill_append hhostname, Bytes.fill_append hbaseuri, htemplate]
  simp only [List.cons_append, List.nil_append]
  rw [Bytes.fill_variable (v := Bytes.signed z) rfl, hslash,
    Bytes.fill_variable (v := Bytes.signed x) rfl, hslash,
    Bytes.fill_variable (v := Bytes.signed y) rfl, hdot, hend]

/-- All paths that start with the path of a layer belong to the layer. -/
structure Owns (configs : List TileConfigRec) (i : ℕ) (config : TileConfigRec) : Prop where
  reserved : ∀ rest, reservedHandler (config.baseuri ++ rest) = none
  select : ∀ rest, selectLayer (config.baseuri ++ rest) 0 configs = some (i, config)

/-- There are no braces in the parts of the addresses. -/
structure PlainAddresses (config : TileConfigRec) : Prop where
  baseuri : 123 ∉ config.baseuri
  fileExtension : 123 ∉ config.fileExtension
  hostname : ∀ hostname ∈ config.hostnames, 123 ∉ hostname

variable {locals : Locals} {o : InitOutcome} {configs : List TileConfigRec} {userdata : Userdata}
  {i : ℕ} {store : StorageBackend} {stores : List (Option StorageBackend)} {cors : CorsRequest}
  {md5 : List UInt8 → List UInt8}

/-- The request for the description belongs to the handler for it. -/
theorem tileTranslate_tileLayerJson (howns : Owns configs i config) :
  tileTranslate locals o configs (config.baseuri ++ Bytes.ofString "tile-layer.json") userdata =
    some ⟨.ok .tileJson, some ⟨none, none, i⟩, userdata⟩
  := by
  rw [tileTranslate, howns.reserved, howns.select]
  dsimp only
  rw [translateLayer, List.drop_left, if_pos (by decide)]

/-- A body is the page. -/
theorem body_tileHandlerJson {handler : Option Handler} {body : List UInt8}
    (h : (tileHandlerJson config handler cors md5).body = some body) :
  body = jsonPage config
  := by
  rw [tileHandlerJson] at h
  split_ifs at h
  split at h
  · exact (Option.some.inj h).symm
  · split at h
    · exact (Option.some.inj h).symm
    · cases h

/-- A layer under the path `/osm/`. -/
def osmLayer (enableOptions : ℕ) : TileConfigRec :=
  sampleServer.tileConfigRec (Bytes.ofString "/osm/") (Bytes.ofString "default") 0
    (Int32.ofNat maxZoom) 1 1 (Bytes.ofString "png") (Bytes.ofString "image/png") []
    (Bytes.ofString "OSM") [] [] [] enableOptions

/-- The paths of the layer are not reserved, and there is no other layer. -/
theorem owns_osmLayer (enableOptions : ℕ) :
  Owns [osmLayer enableOptions] 0 (osmLayer enableOptions)
  where
  reserved := fun rest => by
    have hpath : (osmLayer enableOptions).baseuri = [47, 111, 115, 109, 47] := by
      change normalizeBaseuri (Bytes.ofString "/osm/") = _
      decide
    rw [hpath, reservedHandler]
    simp [Bytes.samePrefix, Bytes.ofString]
  select := fun rest => by
    rw [selectLayer, if_pos]
    exact Bytes.samePrefix_length.mpr (List.prefix_append _ _)

end TileModule
