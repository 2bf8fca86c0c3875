import ModTile.Bytes.Search
import ModTile.Protocol.Basic
import ModTile.StoreFileUtils

/-!
# Finding old metatiles

`descend` of `render_old.c` goes through the directories below a directory and enqueues a job for
every file `.meta` that is older than the planet file.  The job is what `path_to_xyz` has made of
the path, whose return value is not looked at.

A directory is given by its entries, in the order in which `readdir` has them.
-/

namespace RenderOld

open Bytes (ofString cString strrchr)
open StoreFileUtils (slash pathToXyz Parsed)

/-! ### Directories -/

/-- A name in a directory. -/
structure FileName where
  text : List UInt8
  /-- A name is a C string. -/
  nonzero : 0 ∉ text

/-- The entries of a directory: those for which `stat` fails, files with their modification times,
and directories, which may be such that `opendir` fails. -/
inductive Entries where
  | nil
  | unstatable (name : FileName) (rest : Entries)
  | file (name : FileName) (mtime : Int64) (rest : Entries)
  | directory (name : FileName) (opens : Bool) (entries rest : Entries)

/-- The entries that are passed over. -/
def FileName.isDots (name : FileName) : Bool :=
  name.text = ofString "." || name.text = ofString ".."

/-- The path of an entry. -/
def entryPath (search : List UInt8) (name : FileName) : List UInt8 :=
  search ++ slash :: name.text

/-! ### The search -/

/-- The local variables of `descend` that `path_to_xyz` writes to. -/
structure Locals where
  mapname : XmlconfigArray
  x : Int32
  y : Int32
  z : Int32

/-- A call of `enqueue`. -/
structure Job where
  mapname : List UInt8
  x : Int32
  y : Int32
  z : Int32
  deriving DecidableEq

/-- The jobs, and the counters of the old metatiles and of all metatiles. -/
structure State where
  jobs : List Job
  numRender : ℕ
  numAll : ℕ
  deriving DecidableEq

/-- The local variables after `path_to_xyz`: some may keep their values. -/
def Locals.store (locals : Locals) (parsed : Parsed) : Locals where
  mapname := match parsed.xmlconfig with
    | some xmlconfig => Bytes.storeString xmlconfig locals.mapname
    | none => locals.mapname
  x := parsed.px.getD locals.x
  y := parsed.py.getD locals.y
  z := parsed.pz.getD locals.z

/-- The job for the values of the local variables. -/
def Locals.job (locals : Locals) : Job where
  mapname := cString locals.mapname.toList
  x := locals.x
  y := locals.y
  z := locals.z

/-- What is done for a file. -/
def visitFile (tileDir : List UInt8) (planetTimestamp : Int64) (path : List UInt8) (mtime : Int64)
    (locals : Locals) (s : State) : Locals × State :=
  if strrchr 46 path = some (ofString ".meta") then
    if mtime < planetTimestamp then
      let locals := locals.store (pathToXyz tileDir path)
      (locals, {
        jobs := s.jobs ++ [locals.job], numRender := s.numRender + 1, numAll := s.numAll + 1 })
    else (locals, { s with numAll := s.numAll + 1 })
  else (locals, s)

/-- The loop of `descend` over the entries of a directory.  The local variables of a call for a
directory have the values that `stack` has for it at first.  There is no result if a path does not
fit into its array: it is cut off then and is the path of something else. -/
def descend (tileDir : List UInt8) (planetTimestamp : Int64) (stack : List UInt8 → Locals) :
    List UInt8 → Entries → Locals → State → Option State
  | _, .nil, _, s => some s
  | search, .unstatable name rest, locals, s =>
      if name.isDots then descend tileDir planetTimestamp stack search rest locals s
      else if (entryPath search name).length < pathMax then
        descend tileDir planetTimestamp stack search rest locals s
      else none
  | search, .file name mtime rest, locals, s =>
      if name.isDots then descend tileDir planetTimestamp stack search rest locals s
      else if (entryPath search name).length < pathMax then
        let (locals, s) :=
          visitFile tileDir planetTimestamp (entryPath search name) mtime locals s
        descend tileDir planetTimestamp stack search rest locals s
      else none
  | search, .directory name opens entries rest, locals, s =>
      if name.isDots then descend tileDir planetTimestamp stack search rest locals s
      else if (entryPath search name).length < pathMax then
        if opens then
          (descend tileDir planetTimestamp stack (entryPath search name) entries
            (stack (entryPath search name)) s).bind
              (descend tileDir planetTimestamp stack search rest locals)
        else descend tileDir planetTimestamp stack search rest locals s
      else none

/-! ### What is found -/

/-- The paths that are looked at in order, with the modification times of those that are files. -/
def Entries.visited : Entries → List UInt8 → List (List UInt8 × Option Int64)
  | .nil, _ => []
  | .unstatable name rest, search =>
      if name.isDots then rest.visited search
      else (entryPath search name, none) :: rest.visited search
  | .file name mtime rest, search =>
      if name.isDots then rest.visited search
      else (entryPath search name, some mtime) :: rest.visited search
  | .directory name opens entries rest, search =>
      if name.isDots then rest.visited search
      else
        (entryPath search name, none) ::
          ((if opens then entries.visited (entryPath search name) else []) ++ rest.visited search)

/-- The time of a metatile. -/
def metaTime : List UInt8 × Option Int64 → Option Int64
  | (path, mtime) => if ofString ".meta" <:+ path then mtime else none

/-- The metatiles that are older than the planet file. -/
def oldMetatiles (planetTimestamp : Int64) (visited : List (List UInt8 × Option Int64)) :
    List (List UInt8) :=
  (visited.filter fun v => (metaTime v).any (· < planetTimestamp)).map Prod.fst

/-- The job for a metatile whose path is accepted. -/
def decoded (tileDir path : List UInt8) : Option Job :=
  match pathToXyz tileDir path with
  | ⟨0, some xmlconfig, some x, some y, some z⟩ => some ⟨xmlconfig, x, y, z⟩
  | _ => none

/-- All paths fit into their arrays. -/
def Fits (visited : List (List UInt8 × Option Int64)) : Prop :=
  ∀ v ∈ visited, v.1.length < pathMax

variable {tileDir search path : List UInt8} {planetTimestamp mtime : Int64}
  {stack : List UInt8 → Locals} {entries : Entries} {locals : Locals} {s s' s'' : State}
  {visited visited' : List (List UInt8 × Option Int64)} {name : FileName} {job : Job}

/-! ### Decoding -/

/-- The job for a path that is accepted does not depend on what was in the local variables. -/
theorem job_store (hpath : 0 ∉ path) (h : decoded tileDir path = some job) :
  (locals.store (pathToXyz tileDir path)).job = job
  := by
  rw [decoded] at h
  split at h
  case h_1 xmlconfig x y z hparsed =>
    obtain rfl := Option.some.inj h
    have hret : (pathToXyz tileDir path).ret = 0 := by rw [hparsed]
    obtain ⟨xmlconfig', x', y', z', hparsed', hsubset, hlength⟩ :=
      StoreFileUtils.pathToXyz_of_ret hret
    obtain ⟨-, hname, -⟩ := Parsed.mk.inj (hparsed.symm.trans hparsed')
    obtain rfl := Option.some.inj hname
    have hzero : 0 ∉ xmlconfig := fun hmem => hpath (hsubset hmem)
    have hmapname : cString (Bytes.storeString (n := 40) xmlconfig locals.mapname).toList =
        xmlconfig := Bytes.cString_toList_storeString hzero hlength
    rw [hparsed]
    apply congrArg (fun mapname => Job.mk mapname x y z) hmapname
  case h_2 => cases h

theorem isSome_decoded_iff :
  (decoded tileDir path).isSome ↔ (pathToXyz tileDir path).ret = 0
  := by
  constructor
  · intro h
    rw [decoded] at h
    split at h
    case h_1 hparsed => rw [hparsed]
    case h_2 => cases h
  · intro h
    obtain ⟨xmlconfig, x, y, z, hparsed, -⟩ := StoreFileUtils.pathToXyz_of_ret h
    rw [decoded, hparsed]
    rfl

theorem strrchr_meta_iff :
  strrchr 46 path = some (ofString ".meta") ↔ ofString ".meta" <:+ path
  := by
  have hmeta : ofString ".meta" = 46 :: ofString "meta" := by decide
  rw [hmeta]
  apply Bytes.strrchr_eq_some_iff
  decide

theorem zero_notMem_entryPath (hsearch : 0 ∉ search) :
  0 ∉ entryPath search name
  := by
  rw [entryPath, List.mem_append, List.mem_cons]
  rintro (h | h | h)
  · apply hsearch h
  · cases h
  · apply name.nonzero h

/-! ### One search after another -/

/-- What has been found on the way from one state to another: one job for each old metatile, which
is the job of its path if this is accepted. -/
structure Found (tileDir : List UInt8) (planetTimestamp : Int64)
    (visited : List (List UInt8 × Option Int64)) (s s' : State) : Prop where
  jobs : ∃ jobs, s'.jobs = s.jobs ++ jobs ∧
    List.Forall₂ (fun path job => ∀ job', decoded tileDir path = some job' → job = job')
      (oldMetatiles planetTimestamp visited) jobs
  numRender : s'.numRender = s.numRender + (oldMetatiles planetTimestamp visited).length

namespace Found

theorem nil :
  Found tileDir planetTimestamp [] s s
  := by
  constructor
  case jobs => exact ⟨[], (List.append_nil _).symm, .nil⟩
  case numRender => rfl

theorem append (h : Found tileDir planetTimestamp visited s s')
    (h' : Found tileDir planetTimestamp visited' s' s'') :
  Found tileDir planetTimestamp (visited ++ visited') s s''
  := by
  have hold : oldMetatiles planetTimestamp (visited ++ visited') =
      oldMetatiles planetTimestamp visited ++ oldMetatiles planetTimestamp visited' := by
    rw [oldMetatiles, List.filter_append, List.map_append]
    rfl
  constructor
  case jobs =>
    obtain ⟨jobs, hjobs, hforall⟩ := h.jobs
    obtain ⟨jobs', hjobs', hforall'⟩ := h'.jobs
    use jobs ++ jobs'
    rw [hjobs', hjobs, hold, List.append_assoc]
    use rfl
    apply List.rel_append hforall hforall'
  case numRender => rw [h'.numRender, h.numRender, hold, List.length_append, add_assoc]

theorem oldMetatiles_singleton (v : List UInt8 × Option Int64) :
  oldMetatiles planetTimestamp [v] =
    if (metaTime v).any (· < planetTimestamp) then [v.1] else []
  := by
  rw [oldMetatiles, List.filter_singleton, Bool.cond_eq_ite]
  split_ifs
  · rfl
  · rfl

/-- Nothing is found at a path that is not that of a metatile. -/
theorem other {v : List UInt8 × Option Int64} (h : metaTime v = none) :
  Found tileDir planetTimestamp [v] s s
  := by
  have hold : oldMetatiles planetTimestamp [v] = [] := by
    rw [oldMetatiles_singleton, h]
    rfl
  constructor
  case jobs =>
    use []
    rw [hold]
    exact ⟨(List.append_nil _).symm, .nil⟩
  case numRender =>
    rw [hold]
    rfl

theorem file (hpath : 0 ∉ path) :
  Found tileDir planetTimestamp [(path, some mtime)] s
    (visitFile tileDir planetTimestamp path mtime locals s).2
  := by
  rw [visitFile]
  simp only [strrchr_meta_iff]
  split_ifs with hmeta hold
  · have hpaths : oldMetatiles planetTimestamp [(path, some mtime)] = [path] := by
      rw [oldMetatiles_singleton, metaTime, if_pos hmeta, Option.any_some,
        if_pos (decide_eq_true hold)]
    constructor
    case jobs =>
      use [(locals.store (pathToXyz tileDir path)).job], rfl
      rw [hpaths]
      apply List.Forall₂.cons _ .nil
      intro job'
      apply job_store hpath
    case numRender =>
      rw [hpaths]
      rfl
  · have hpaths : oldMetatiles planetTimestamp [(path, some mtime)] = [] := by
      rw [oldMetatiles_singleton, metaTime, if_pos hmeta, Option.any_some,
        if_neg (by simpa using hold)]
    constructor
    case jobs =>
      use []
      rw [hpaths]
      exact ⟨(List.append_nil _).symm, .nil⟩
    case numRender =>
      rw [hpaths]
      rfl
  · apply other
    rw [metaTime, if_neg hmeta]

end Found

theorem metaTime_none :
  metaTime (path, none) = none
  := ite_self none

/-- What is found for one entry and the entries after it, if the entry is passed over and if it is
looked at. -/
theorem exists_entry {rest : List (List UInt8 × Option Int64)} {mtime : Option Int64}
    {skip visit : Option State}
    (hfits : Fits (if name.isDots then rest else (entryPath search name, mtime) :: visited))
    (hskip : Fits rest → ∃ s', skip = some s' ∧ Found tileDir planetTimestamp rest s s')
    (hvisit : Fits visited → ∃ s', visit = some s' ∧
      Found tileDir planetTimestamp ([(entryPath search name, mtime)] ++ visited) s s') :
  ∃ s', (if name.isDots then skip
      else if (entryPath search name).length < pathMax then visit else none) = some s' ∧
    Found tileDir planetTimestamp
      (if name.isDots then rest else (entryPath search name, mtime) :: visited) s s'
  := by
  split_ifs at hfits ⊢ with hdots hpath
  · apply hskip hfits
  · apply hvisit (List.forall_mem_cons.mp hfits).2
  · apply absurd (List.forall_mem_cons.mp hfits).1 hpath

/-- What `descend` finds: by induction on the entries, with the entries of a directory before
those that come after it. -/
theorem exists_descend (tileDir : List UInt8) (planetTimestamp : Int64)
    (stack : List UInt8 → Locals) (locals : Locals) (s : State) (hsearch : 0 ∉ search)
    (hfits : Fits (entries.visited search)) :
  ∃ s', descend tileDir planetTimestamp stack search entries locals s = some s' ∧
    Found tileDir planetTimestamp (entries.visited search) s s'
  := by
  induction entries generalizing search locals s with
  | nil =>
      use s, rfl
      apply Found.nil
  | unstatable name rest ih =>
      apply exists_entry hfits (ih locals s hsearch)
      intro hrest
      obtain ⟨s', hs', hfound⟩ := ih locals s hsearch hrest
      exact ⟨s', hs', (Found.other metaTime_none).append hfound⟩
  | file name mtime rest ih =>
      apply exists_entry hfits (ih locals s hsearch)
      intro hrest
      obtain ⟨s', hs', hfound⟩ := ih _ _ hsearch hrest
      exact ⟨s', hs', (Found.file (zero_notMem_entryPath hsearch)).append hfound⟩
  | directory name opens entries rest ih ih' =>
      apply exists_entry hfits (ih' locals s hsearch)
      intro hrest
      obtain ⟨hinside, hafter⟩ := List.forall_mem_append.mp hrest
      cases opens with
      | true =>
          obtain ⟨s₁, hs₁, hfound₁⟩ :=
            ih (stack (entryPath search name)) s (zero_notMem_entryPath hsearch) hinside
          obtain ⟨s', hs', hfound⟩ := ih' locals s₁ hsearch hafter
          rw [if_pos rfl, hs₁, Option.bind_some]
          exact ⟨s', hs', (Found.other metaTime_none).append (hfound₁.append hfound)⟩
      | false =>
          obtain ⟨s', hs', hfound⟩ := ih' locals s hsearch hafter
          exact ⟨s', hs', (Found.other metaTime_none).append hfound⟩

/-- One job for each path is the list of the jobs of the accepted paths exactly if every path is
accepted. -/
theorem eq_filterMap_iff {paths : List (List UInt8)} {jobs : List Job}
    (h : List.Forall₂ (fun path job => ∀ job', decoded tileDir path = some job' → job = job')
      paths jobs) :
  jobs = paths.filterMap (decoded tileDir) ↔ ∀ path ∈ paths, (pathToXyz tileDir path).ret = 0
  := by
  constructor
  · intro heq path hpath
    have hlength := h.length_eq
    rw [heq] at hlength
    apply isSome_decoded_iff.mp
    apply List.filterMap_length_eq_length.mp hlength.symm path hpath
  · intro hret
    induction h with
    | nil => rfl
    | @cons path job paths jobs hjob _ ih =>
        obtain ⟨hpath, hpaths⟩ := List.forall_mem_cons.mp hret
        obtain ⟨job', hjob'⟩ := Option.isSome_iff_exists.mp (isSome_decoded_iff.mpr hpath)
        rw [List.filterMap_cons, hjob', ← ih hpaths, hjob job' hjob']

/-- For every directory whose paths fit into their arrays, every planet timestamp and all values of
the local variables: as many jobs are enqueued as there are old metatiles, and they are
the jobs that are decoded from the accepted paths, in the order in which these are found,
exactly when every path of an old metatile is accepted. -/
theorem old_metatiles_enqueued (tileDir : List UInt8) (planetTimestamp : Int64)
    (stack : List UInt8 → Locals) (search : List UInt8) (entries : Entries) (s : State)
    (hsearch : 0 ∉ search) (hfits : Fits (entries.visited search)) :
  ∃ s' jobs,
    descend tileDir planetTimestamp stack search entries (stack search) s = some s' ∧
    s'.jobs = s.jobs ++ jobs ∧ s'.numRender = s.numRender + jobs.length ∧
    jobs.length = (oldMetatiles planetTimestamp (entries.visited search)).length ∧
    (jobs = (oldMetatiles planetTimestamp (entries.visited search)).filterMap (decoded tileDir) ↔
      ∀ path ∈ oldMetatiles planetTimestamp (entries.visited search),
        (pathToXyz tileDir path).ret = 0)
  := by
  obtain ⟨s', hs', hfound⟩ :=
    exists_descend tileDir planetTimestamp stack (stack search) s hsearch hfits
  obtain ⟨jobs, hjobs, hforall⟩ := hfound.jobs
  have hlength := hforall.length_eq
  have hnum := hfound.numRender
  rw [hlength] at hnum
  exact ⟨s', jobs, hs', hjobs, hnum, hlength.symm, eq_filterMap_iff hforall⟩

/-! ### Samples -/

theorem zero_notMem_metatile :
  0 ∉ ofString "0.meta"
  := by decide

theorem zero_notMem_copy :
  0 ∉ ofString "copy.meta"
  := by decide

/-- A directory with one metatile and a directory that cannot be opened. -/
def sampleEntries : Entries :=
  .file ⟨ofString "0.meta", zero_notMem_metatile⟩ 5
    (.directory ⟨ofString "copy.meta", zero_notMem_copy⟩ false .nil .nil)

/-- A directory with a metatile and a file with a name that does not have a number. -/
def sampleCopy : Entries :=
  .file ⟨ofString "0.meta", zero_notMem_metatile⟩ 5
    (.file ⟨ofString "copy.meta", zero_notMem_copy⟩ 5 .nil)

def sampleSearch : List UInt8 := ofString "/tiles/osm/3/0/0/0/0"

/-- Nothing has been stored yet. -/
def sampleStack (_ : List UInt8) : Locals := ⟨.replicate _ 0, 0, 0, 0⟩

/-- A metatile that is older than the planet file. -/
theorem old_metatiles_enqueued_sample :
  ∃ s' jobs, descend (ofString "/tiles") 6 sampleStack sampleSearch sampleEntries
      (sampleStack sampleSearch) ⟨[], 0, 0⟩ = some s' ∧ s'.jobs = jobs ∧ jobs.length = 1 ∧
    jobs = (oldMetatiles 6 (sampleEntries.visited sampleSearch)).filterMap
      (decoded (ofString "/tiles"))
  := by
  have hold : oldMetatiles 6 (sampleEntries.visited sampleSearch) =
      [sampleSearch ++ ofString "/0.meta"] := by
    decide +kernel
  have hfits : Fits (sampleEntries.visited sampleSearch) := by
    rw [Fits]
    decide +kernel
  obtain ⟨s', jobs, hs', hjobs, -, hlength, hiff⟩ := old_metatiles_enqueued (ofString "/tiles") 6
    sampleStack sampleSearch sampleEntries ⟨[], 0, 0⟩ (by decide) hfits
  use s', jobs, hs', hjobs
  rw [hold] at hlength hiff ⊢
  use hlength
  apply hiff.mpr
  decide +kernel

/-- The path of the second file is not accepted, and the job of the first file, whose values are
still in the local variables, is enqueued once more. -/
theorem rejected_path_enqueued :
  (descend (ofString "/tiles") 6 sampleStack sampleSearch sampleCopy (sampleStack sampleSearch)
      ⟨[], 0, 0⟩).map State.jobs =
    some [⟨ofString "osm", 0, 0, 3⟩, ⟨ofString "osm", 0, 0, 3⟩] ∧
    (oldMetatiles 6 (sampleCopy.visited sampleSearch)).filterMap (decoded (ofString "/tiles")) =
      [⟨ofString "osm", 0, 0, 3⟩] ∧
    (pathToXyz (ofString "/tiles") (sampleSearch ++ ofString "/copy.meta")).ret = 1
  := by
  decide +kernel

end RenderOld
