import ModTile.Bytes.Decimal
import ModTile.Loop
import ModTile.RenderdConfig

/-!
# The sections for render daemons

`process_renderd_sections` reads the sections of a configuration file whose names start with
`renderd` into an array with `MAX_SLAVES` entries.  The entry for a section is the number in its
name, as `strtol` reads it and as an `int` keeps it.  The number is compared with `MAX_SLAVES`,
but not with zero, before the array is indexed with it.

`process_config_file` adds up the numbers of threads of the entries but the active one, and
`main` allocates an array for as many slave threads and then starts the threads of one entry
after the other.
-/

namespace RenderdConfig

open Bytes (ofString)

/-- The number of entries for sections. -/
def maxSlaves : ℕ := 5

instance : NeZero maxSlaves := ⟨by decide⟩

/-- The size of the array for the name of a socket in `struct sockaddr_un`. -/
def socketnameMaxlen : ℕ := 108

/-- `renderd_config`, without what `process_mapnik_section` puts there. -/
structure RenderdSection where
  iphostname : List UInt8
  name : List UInt8
  pidFilename : List UInt8
  socketname : List UInt8
  statsFilename : List UInt8
  tileDir : List UInt8
  ipport : Int32
  numThreads : Int32

/-- The reasons to exit while the sections are read. -/
inductive SectionError where
  | invalidName (sec : List UInt8)
  | tooManySections
  | duplicate (num : ℤ) (name sec : List UInt8)
  | socketnameTooLong (socketname : List UInt8)
  | noSections (configFileName : List UInt8)

namespace SectionError

/-- The message for an error. -/
def message : SectionError → List UInt8
  | invalidName sec => ofString "Invalid renderd section name: " ++ sec
  | tooManySections => ofString s!"Can't handle more than {maxSlaves} renderd config sections"
  | duplicate num name sec =>
      ofString "Duplicate renderd config section names for section " ++ Bytes.signed num ++
        ofString ": " ++ name ++ ofString " & " ++ sec
  | socketnameTooLong socketname =>
      ofString "Specified socketname (" ++ socketname ++
        ofString s!") exceeds maximum allowed length of {socketnameMaxlen}."
  | noSections configFileName =>
      ofString "No renderd config sections were found in file: " ++ configFileName

/-- The status with which the program exits. -/
def exitStatus : SectionError → ℕ
  | noSections _ => 1
  | _ => 7

end SectionError

/-- How reading the sections ends early: the program exits, or it uses an index outside of the
array, and what it does then is not defined. -/
inductive SectionStop where
  | exits (e : SectionError)
  | outOfBounds (index : ℤ)

/-- The value of a key as a number, or the default. -/
def processConfigInt (sec : IniSection) (name : String) (notfound : Int32) : Int32 :=
  ((sec.getint name).map Int32.ofInt).getD notfound

/-- The number of threads in a section, when the machine has `cpus` processors. -/
def sectionThreads (cpus : Int32) (sec : IniSection) : Int32 :=
  let numThreads := processConfigInt sec "num_threads" 4
  if numThreads = -1 then cpus else numThreads

/-- What is read from a section. -/
def readSection (cpus : Int32) (sec : IniSection) : RenderdSection where
  name := copyString sec.name (7 + 2)
  ipport := processConfigInt sec "ipport" 0
  numThreads := sectionThreads cpus sec
  iphostname := processConfigString sec "iphostname" [] inilineMax
  pidFilename := processConfigString sec "pid_file" (ofString "/run/renderd/renderd.pid") pathMax
  socketname := processConfigString sec "socketname" (ofString "/run/renderd/renderd.sock") pathMax
  statsFilename := processConfigString sec "stats_file" [] pathMax
  tileDir := processConfigString sec "tile_dir" (ofString "/var/cache/renderd/tiles") pathMax

/-- The array of the sections.  An entry without a section is zero. -/
abbrev Configs : Type := Fin maxSlaves → Option RenderdSection

/-- The section is that of a render daemon. -/
def isRenderdSection (sec : IniSection) : Bool :=
  Bytes.samePrefix 7 sec.name (ofString "renderd")

/-- The number in the name of a section. -/
def renderdSectionNum (name : List UInt8) : Except SectionError Int32 :=
  if name = ofString "renderd" ∨ name = ofString "renderd0" then .ok 0
  else
    match Bytes.scanInt (name.drop 7) with
    | none => .error (.invalidName name)
    | some _ => .ok (Int32.ofInt (Bytes.strtol (name.drop 7)).1)

/-- The entry with the given index is filled from a section. -/
def storeSection (cpus : Int32) (configs : Configs) (i : Fin maxSlaves) (sec : IniSection) :
    Except SectionStop Configs :=
  match configs i with
  | some c => .error (.exits (.duplicate i.1 c.name sec.name))
  | none =>
      let c := readSection cpus sec
      if socketnameMaxlen ≤ c.socketname.length then
        .error (.exits (.socketnameTooLong c.socketname))
      else .ok (Function.update configs i (some c))

/-- One round of the loop over the sections.  The state is the number of the last section and the
array. -/
def processRenderdSection (cpus : Int32) (st : Int32 × Configs) (sec : IniSection) :
    Except SectionStop (Int32 × Configs) :=
  if isRenderdSection sec then
    match renderdSectionNum sec.name with
    | .error e => .error (.exits e)
    | .ok num =>
        if hmax : num.toInt ≥ maxSlaves then .error (.exits .tooManySections)
        else if hneg : num.toInt < 0 then .error (.outOfBounds num.toInt)
        else
          match storeSection cpus st.2 ⟨num.toInt.toNat, by omega⟩ sec with
          | .error e => .error e
          | .ok configs => .ok (num, configs)
  else .ok st

/-- The array of the sections of a configuration file. -/
def processRenderdSections (cpus : Int32) (ini : List IniSection) (configFileName : List UInt8) :
    Except SectionStop Configs :=
  match ini.foldlM (processRenderdSection cpus) ((-1 : Int32), fun _ => none) with
  | .error e => .error e
  | .ok (num, configs) =>
      if num.toInt < 0 then .error (.exits (.noSections configFileName)) else .ok configs

/-! ### The entries of the sections -/

/-- The entry for a section with the given name. -/
def sectionSlot (name : List UInt8) : Option (Fin maxSlaves) :=
  match renderdSectionNum name with
  | .error _ => none
  | .ok num =>
      if h : 0 ≤ num.toInt ∧ num.toInt < maxSlaves then some ⟨num.toInt.toNat, by omega⟩ else none

/-- The section is one for a render daemon, and the number in its name is negative. -/
def IsNegative (sec : IniSection) (index : ℤ) : Prop :=
  isRenderdSection sec ∧ ∃ num, renderdSectionNum sec.name = .ok num ∧ num.toInt = index ∧ index < 0

/-- The sections are in the array: each of them in the entry with its number, no two of them in the
same entry, and nothing else. -/
structure Stored (cpus : Int32) (ini : List IniSection) (configs : Configs) : Prop where
  stored : ∀ sec ∈ ini, isRenderdSection sec → ∃ i, sectionSlot sec.name = some i ∧
    configs i = some (readSection cpus sec)
  distinct : (ini.filter isRenderdSection).Pairwise fun sec sec' =>
    sectionSlot sec.name ≠ sectionSlot sec'.name
  only : ∀ i c, configs i = some c → ∃ sec ∈ ini, isRenderdSection sec ∧
    sectionSlot sec.name = some i ∧ c = readSection cpus sec

variable {cpus : Int32} {st st' : Int32 × Configs} {ini : List IniSection} {sec : IniSection}
  {configs configs' : Configs} {configFileName : List UInt8} {i : Fin maxSlaves} {index : ℤ}

theorem storeSection_ok (h : storeSection cpus configs i sec = .ok configs') :
  configs i = none ∧ configs' = Function.update configs i (some (readSection cpus sec))
  := by
  rw [storeSection] at h
  split at h
  · cases h
  · rename_i hnone
    dsimp only at h
    split at h
    · cases h
    · exact ⟨hnone, (Except.ok.inj h).symm⟩

/-- A round that goes on either skips the section or puts it into an entry that was not used. -/
theorem processRenderdSection_ok (h : processRenderdSection cpus st sec = .ok st') :
  isRenderdSection sec = false ∧ st'.2 = st.2 ∨
    isRenderdSection sec = true ∧ ∃ i, sectionSlot sec.name = some i ∧ st.2 i = none ∧
      st'.2 = Function.update st.2 i (some (readSection cpus sec))
  := by
  rw [processRenderdSection] at h
  split at h
  · rename_i hrenderd
    right
    use hrenderd
    split at h
    · cases h
    · rename_i num hnum
      split at h
      · cases h
      · rename_i hmax
        split at h
        · cases h
        · rename_i hneg
          split at h
          · cases h
          · rename_i configs hstore
            obtain rfl := Except.ok.inj h
            obtain ⟨hnone, hconfigs⟩ := storeSection_ok hstore
            refine ⟨_, ?_, hnone, hconfigs⟩
            rw [sectionSlot, hnum]
            apply dif_pos
            omega
  · rename_i hother
    obtain rfl := Except.ok.inj h
    left
    exact ⟨Bool.not_eq_true _ ▸ hother, rfl⟩

theorem storeSection_ne_outOfBounds :
  storeSection cpus configs i sec ≠ .error (.outOfBounds index)
  := by
  rw [storeSection]
  split
  · simp
  · dsimp only
    split <;> simp

/-- A round indexes the array outside of its bounds exactly for a section with a negative
number. -/
theorem processRenderdSection_outOfBounds_iff :
  processRenderdSection cpus st sec = .error (.outOfBounds index) ↔ IsNegative sec index
  := by
  rw [processRenderdSection, IsNegative]
  split
  · rename_i hrenderd
    rw [and_iff_right hrenderd]
    split
    · rename_i e hnum
      simp [hnum]
    · rename_i num hnum
      simp only [hnum, Except.ok.injEq, exists_eq_left']
      split
      · rename_i hmax
        simp only [Except.error.injEq, reduceCtorEq, false_iff, not_and, not_lt]
        omega
      · split
        · rename_i hneg
          simp only [Except.error.injEq, SectionStop.outOfBounds.injEq]
          omega
        · rename_i hneg
          constructor
          · intro h
            split at h
            · rename_i hstore
              rw [Except.error.inj h] at hstore
              exact absurd hstore storeSection_ne_outOfBounds
            · cases h
          · omega
  · rename_i hother
    simp [hother]

/-- Every round keeps the sections dealt with so far in the array. -/
theorem Stored.round {done : List IniSection} (hs : Stored cpus done st.2)
    (h : processRenderdSection cpus st sec = .ok st') :
  Stored cpus (done ++ [sec]) st'.2
  := by
  rcases processRenderdSection_ok h with ⟨hother, heq⟩ | ⟨hrenderd, i, hslot, hnone, heq⟩
  · rw [heq]
    constructor
    case stored =>
      intro sec' hmem hrenderd'
      rcases List.mem_append.mp hmem with hmem | hmem
      · apply hs.stored sec' hmem hrenderd'
      · rw [List.mem_singleton.mp hmem, hother] at hrenderd'
        cases hrenderd'
    case distinct =>
      rw [List.filter_append, List.filter_cons_of_neg (by simp [hother]), List.filter_nil,
        List.append_nil]
      apply hs.distinct
    case only =>
      intro j c hc
      obtain ⟨sec', hmem, hsec'⟩ := hs.only j c hc
      exact ⟨sec', List.mem_append_left _ hmem, hsec'⟩
  · have hne : ∀ sec' ∈ done, isRenderdSection sec' → sectionSlot sec'.name ≠ some i := by
      intro sec' hmem hrenderd' hslot'
      obtain ⟨j, hj, hc⟩ := hs.stored sec' hmem hrenderd'
      rw [hslot'] at hj
      obtain rfl := Option.some.inj hj
      rw [hnone] at hc
      cases hc
    rw [heq]
    constructor
    case stored =>
      intro sec' hmem hrenderd'
      rcases List.mem_append.mp hmem with hmem | hmem
      · obtain ⟨j, hj, hc⟩ := hs.stored sec' hmem hrenderd'
        refine ⟨j, hj, ?_⟩
        rw [Function.update_of_ne, hc]
        rintro rfl
        apply hne sec' hmem hrenderd' hj
      · rw [List.mem_singleton.mp hmem]
        exact ⟨i, hslot, Function.update_self ..⟩
    case distinct =>
      rw [List.filter_append, List.pairwise_append]
      refine ⟨hs.distinct, ?_, ?_⟩
      · rw [List.filter_cons_of_pos hrenderd, List.filter_nil]
        apply List.pairwise_singleton
      · intro sec' hmem' sec'' hmem''
        obtain ⟨hmem', hrenderd'⟩ := List.mem_filter.mp hmem'
        rw [List.mem_singleton.mp (List.mem_filter.mp hmem'').1, hslot]
        apply hne sec' hmem' hrenderd'
    case only =>
      intro j c hc
      by_cases hj : j = i
      · subst hj
        rw [Function.update_self] at hc
        exact ⟨sec, by simp, hrenderd, hslot, (Option.some.inj hc).symm⟩
      · rw [Function.update_of_ne hj] at hc
        obtain ⟨sec', hmem, hsec'⟩ := hs.only j c hc
        exact ⟨sec', List.mem_append_left _ hmem, hsec'⟩

/-- When the sections have been read, they are in the array. -/
theorem stored_processRenderdSections
    (h : processRenderdSections cpus ini configFileName = .ok configs) :
  Stored cpus ini configs
  := by
  rw [processRenderdSections] at h
  split at h
  · cases h
  · rename_i num configs' hloop
    split at h
    · cases h
    · obtain rfl := Except.ok.inj h
      apply Loop.foldlM_invariant (P := fun done st => Stored cpus done st.2) hloop
      · constructor <;> simp
      · intro done sec st st' hs hround
        apply hs.round hround

/-- The loop over the sections. -/
theorem processRenderdSections_outOfBounds_iff :
  processRenderdSections cpus ini configFileName = .error (.outOfBounds index) ↔
    ini.foldlM (processRenderdSection cpus) ((-1 : Int32), fun _ => none) =
      .error (.outOfBounds index)
  := by
  rw [processRenderdSections]
  split
  · rename_i e hloop
    rw [hloop]
    simp
  · rename_i num configs hloop
    rw [hloop]
    split <;> simp

/-- An index outside of the array is used exactly when a section with a negative number is met,
after the sections before it have been read without an error.  When all sections have been
read, every section for a render daemon is in an entry of the array, distinct ones in distinct
entries. -/
theorem sections_in_range (cpus : Int32) (ini : List IniSection) (configFileName : List UInt8) :
  (∀ index, processRenderdSections cpus ini configFileName = .error (.outOfBounds index) ↔
      ∃ done sec rest st, ini = done ++ sec :: rest ∧
        done.foldlM (processRenderdSection cpus) ((-1 : Int32), fun _ => none) = .ok st ∧
        IsNegative sec index) ∧
    ∀ configs, processRenderdSections cpus ini configFileName = .ok configs →
      Stored cpus ini configs
  := by
  constructor
  · intro index
    rw [processRenderdSections_outOfBounds_iff, Loop.foldlM_eq_error_iff]
    simp only [processRenderdSection_outOfBounds_iff]
  · intro configs h
    apply stored_processRenderdSections h

/-- A section with a name and a number of threads. -/
def sampleRenderd (name : List UInt8) (h : 0 ∉ name) (numThreads : ℤ) : IniSection where
  name := name
  getstring := fun _ => none
  getint := fun key => if key = "num_threads" then some numThreads else none
  getdouble := fun _ => none
  name_nonzero := h

theorem zero_notMem_renderd :
  0 ∉ ofString "renderd"
  := by decide

theorem zero_notMem_renderd_one :
  0 ∉ ofString "renderd1"
  := by decide

theorem zero_notMem_renderd_two :
  0 ∉ ofString "renderd2"
  := by decide

theorem zero_notMem_negative :
  0 ∉ ofString "renderd-1"
  := by decide

/-- The sections of a render daemon with four threads and of two slaves. -/
def sampleSlaves (one two : ℤ) : List IniSection :=
  [sampleRenderd (ofString "renderd") zero_notMem_renderd 4,
   sampleRenderd (ofString "renderd1") zero_notMem_renderd_one one,
   sampleRenderd (ofString "renderd2") zero_notMem_renderd_two two]

theorem sections_in_range_slaves :
  ∃ configs, processRenderdSections 8 (sampleSlaves 3 2) [] = .ok configs ∧
    Stored 8 (sampleSlaves 3 2) configs
  := by
  have hrun : (processRenderdSections 8 (sampleSlaves 3 2) []).toOption.isSome := by
    decide +kernel
  obtain ⟨configs, h⟩ := Option.isSome_iff_exists.mp hrun
  have hok := eq_ok_of_toOption h
  exact ⟨configs, hok, (sections_in_range 8 _ []).2 configs hok⟩

/-- The section `renderd-1` is looked for in front of the array. -/
theorem section_outOfBounds :
  processRenderdSections 8 [sampleRenderd (ofString "renderd-1") zero_notMem_negative 4] [] =
    .error (.outOfBounds (-1))
  := by
  rfl

/-! ### The slave threads -/

/-- The number of threads of an entry. -/
def Configs.numThreads (configs : Configs) (i : Fin maxSlaves) : Int32 :=
  match configs i with
  | none => 0
  | some c => c.numThreads

/-- The sum of two numbers, if it is one.  What happens otherwise is not defined. -/
def addInt (a b : Int32) : Option Int32 :=
  if -2 ^ 31 ≤ a.toInt + b.toInt ∧ a.toInt + b.toInt < 2 ^ 31 then
    some (Int32.ofInt (a.toInt + b.toInt))
  else none

/-- One round of the loop that computes `num_slave_threads`. -/
def countSlaveThreads (configs : Configs) (active : Fin maxSlaves) (num : Int32)
    (i : Fin maxSlaves) : Option Int32 :=
  if configs.numThreads i = 0 then some num
  else if i = active then some num
  else addInt num (configs.numThreads i)

/-- The value of `num_slave_threads` at the end of `process_config_file`. -/
def numSlaveThreads (configs : Configs) (active : Fin maxSlaves) : Option Int32 :=
  (List.finRange maxSlaves).foldlM (countSlaveThreads configs active) 0

/-- The reasons for which a configuration file is not accepted. -/
inductive ConfigStop where
  | sections (e : SectionStop)
  | notActive (active : ℕ)
  | noMapnikSection (configFileName : List UInt8)
  | maps (e : MapError)

/-- What has been read from a configuration file. -/
structure ParsedConfig where
  configSlaves : Configs
  maps : List XmlConfigItem

/-- The configuration in a file for the render daemon with the given section. -/
def processConfigFile (cpus : Int32) (ini : List IniSection) (configFileName : List UInt8)
    (active : Fin maxSlaves) : Except ConfigStop ParsedConfig := do
  let configs ← (processRenderdSections cpus ini configFileName).mapError .sections
  match configs active with
  | none => .error (.notActive active)
  | some config =>
      if config.numThreads = 0 then .error (.notActive active)
      else if ini.all (fun sec => sec.name ≠ ofString "mapnik") then
        .error (.noMapnikSection configFileName)
      else do
        let maps ← (processMapSections ini configFileName config.tileDir
          config.numThreads.toInt).mapError .maps
        return { configSlaves := configs, maps := maps }

/-- The loop of `main` that starts the threads of an entry, from the number `k` of threads on. -/
def spawnThreads (configs : Configs) (k : ℕ) (i : Fin maxSlaves) : ℕ :=
  (List.range (configs.numThreads i).toInt.toNat).foldl (fun k _ => k + 1) k

/-- The entries of the array but the first one. -/
def slaves : List (Fin maxSlaves) := (List.finRange maxSlaves).tail

/-- The number of entries of `slave_threads` that `main` writes in the render daemon with the
section 0. -/
def spawnSlaves (configs : Configs) (numSlaveThreads : Int32) : ℕ :=
  if numSlaveThreads.toInt > 0 then slaves.foldl (spawnThreads configs) 0 else 0

/-- The number of entries of `slave_threads` that `main` allocates. -/
def allocatedSlaves (numSlaveThreads : Int32) : ℕ := numSlaveThreads.toInt.toNat

theorem addInt_eq_some {a b c : Int32} (h : addInt a b = some c) :
  c.toInt = a.toInt + b.toInt
  := by
  rw [addInt] at h
  split at h
  · rename_i hrange
    obtain rfl := Option.some.inj h
    apply Int32.toInt_ofInt_of_le hrange.1 hrange.2
  · cases h

theorem countSlaveThreads_eq_some {num num' : Int32} {active : Fin maxSlaves} (hi : i ≠ active)
    (h : countSlaveThreads configs active num i = some num') :
  num'.toInt = num.toInt + (configs.numThreads i).toInt
  := by
  rw [countSlaveThreads, if_neg hi] at h
  split at h
  · rename_i hzero
    obtain rfl := Option.some.inj h
    simp [hzero]
  · apply addInt_eq_some h

/-- The loop over entries of which none is active. -/
theorem foldlM_countSlaveThreads {num num' : Int32} {active : Fin maxSlaves}
    {l : List (Fin maxSlaves)} (hl : active ∉ l)
    (h : l.foldlM (countSlaveThreads configs active) num = some num') :
  num'.toInt = num.toInt + (l.map fun i => (configs.numThreads i).toInt).sum
  := by
  induction l generalizing num with
  | nil =>
      obtain rfl := Option.some.inj h
      simp
  | cons i l ih =>
      rw [List.mem_cons, not_or] at hl
      rw [List.foldlM_cons, Option.bind_eq_bind, Option.bind_eq_some_iff] at h
      obtain ⟨num₁, hi, h⟩ := h
      rw [ih hl.2 h, countSlaveThreads_eq_some (Ne.symm hl.1) hi, List.map_cons, List.sum_cons]
      omega

/-- The sum that `process_config_file` computes. -/
theorem numSlaveThreads_eq_some {num : Int32} (h : numSlaveThreads configs 0 = some num) :
  num.toInt = (slaves.map fun i => (configs.numThreads i).toInt).sum
  := by
  have hrange : List.finRange maxSlaves = 0 :: slaves := rfl
  have hactive : countSlaveThreads configs 0 0 0 = some 0 := by
    rw [countSlaveThreads]
    split <;> simp
  rw [numSlaveThreads, hrange, List.foldlM_cons, hactive] at h
  have hsum := foldlM_countSlaveThreads (by decide) h
  simpa using hsum

theorem spawnThreads_eq (k : ℕ) :
  spawnThreads configs k i = k + (configs.numThreads i).toInt.toNat
  := by
  rw [spawnThreads]
  induction (configs.numThreads i).toInt.toNat with
  | zero => rfl
  | succ n ih =>
      rw [List.range_succ, List.foldl_append, ih]
      rfl

/-- The loop over the entries writes one entry of `slave_threads` for every thread. -/
theorem foldl_spawnThreads (l : List (Fin maxSlaves)) (k : ℕ) :
  l.foldl (spawnThreads configs) k =
    k + (l.map fun i => (configs.numThreads i).toInt.toNat).sum
  := by
  induction l generalizing k with
  | nil => rfl
  | cons i l ih =>
      rw [List.foldl_cons, ih, spawnThreads_eq, List.map_cons, List.sum_cons, Nat.add_assoc]

/-- Numbers of which the negative ones are counted as zero have the sum of the numbers themselves
exactly when none of them is negative. -/
theorem sum_toNat_le_sum_iff {f : Fin maxSlaves → ℤ} (l : List (Fin maxSlaves)) :
  ((l.map fun i => (f i).toNat).sum : ℤ) ≤ (l.map f).sum ↔ ∀ i ∈ l, 0 ≤ f i
  := by
  have hge : ∀ l : List (Fin maxSlaves),
      (l.map f).sum ≤ ((l.map fun i => (f i).toNat).sum : ℤ) := by
    intro l
    induction l with
    | nil => simp
    | cons i l ih =>
        simp only [List.map_cons, List.sum_cons]
        omega
  induction l with
  | nil => simp
  | cons i l ih =>
      have hge := hge l
      simp only [List.map_cons, List.sum_cons, List.forall_mem_cons, ← ih]
      omega

/-- The threads fit exactly when there is nothing to start or no number of threads is negative. -/
theorem spawnSlaves_le_iff {num : Int32} (h : numSlaveThreads configs 0 = some num) :
  spawnSlaves configs num ≤ allocatedSlaves num ↔
    num.toInt ≤ 0 ∨ ∀ i ∈ slaves, 0 ≤ (configs.numThreads i).toInt
  := by
  have hsum := numSlaveThreads_eq_some h
  rw [← sum_toNat_le_sum_iff slaves, ← hsum, spawnSlaves, allocatedSlaves]
  split
  · rw [foldl_spawnThreads]
    omega
  · omega

theorem mem_slaves_iff :
  i ∈ slaves ↔ i ≠ 0
  := by
  revert i
  decide

/-- The number of threads of a section is not negative exactly when the one in the file is -1 at
least. -/
theorem sectionThreads_nonneg_iff (hcpus : 0 < cpus.toInt) :
  0 ≤ (sectionThreads cpus sec).toInt ↔ -1 ≤ (processConfigInt sec "num_threads" 4).toInt
  := by
  rw [sectionThreads]
  split
  · rename_i hall
    rw [hall]
    exact iff_of_true hcpus.le (by decide)
  · rename_i hne
    have hne' : (processConfigInt sec "num_threads" 4).toInt ≠ -1 := by
      intro h
      apply hne
      apply Int32.toInt.inj
      rw [h]
      rfl
    omega

/-- The numbers of threads of the slaves are those in the file. -/
theorem Stored.numThreads_nonneg_iff (hs : Stored cpus ini configs) (hcpus : 0 < cpus.toInt) :
  (∀ i ∈ slaves, 0 ≤ (configs.numThreads i).toInt) ↔
    ∀ sec ∈ ini, isRenderdSection sec → sectionSlot sec.name ≠ some 0 →
      -1 ≤ (processConfigInt sec "num_threads" 4).toInt
  := by
  constructor
  · intro h sec hmem hrenderd hslot
    obtain ⟨i, hi, hc⟩ := hs.stored sec hmem hrenderd
    have hmem' : i ∈ slaves := by
      rw [mem_slaves_iff]
      rintro rfl
      apply hslot hi
    have hthreads := h i hmem'
    rw [Configs.numThreads, hc] at hthreads
    apply (sectionThreads_nonneg_iff hcpus).mp hthreads
  · intro h i hmem
    rw [Configs.numThreads]
    split
    · decide
    · rename_i c hc
      obtain ⟨sec, hsec, hrenderd, hi, rfl⟩ := hs.only i c hc
      apply (sectionThreads_nonneg_iff hcpus).mpr
      apply h sec hsec hrenderd
      rw [hi, ne_eq, Option.some_inj]
      apply mem_slaves_iff.mp hmem

theorem configSlaves_of_processConfigFile {active : Fin maxSlaves} {parsed : ParsedConfig}
    (h : processConfigFile cpus ini configFileName active = .ok parsed) :
  processRenderdSections cpus ini configFileName = .ok parsed.configSlaves
  := by
  rw [processConfigFile] at h
  obtain ⟨configs, hconfigs, h⟩ := bind_eq_ok h
  have heq : parsed.configSlaves = configs := by
    split at h
    · cases h
    · split at h
      · cases h
      · split at h
        · cases h
        · obtain ⟨maps, -, h⟩ := bind_eq_ok h
          obtain rfl := Except.ok.inj h
          rfl
  rw [heq]
  cases hsections : processRenderdSections cpus ini configFileName with
  | error e =>
      rw [hsections] at hconfigs
      cases hconfigs
  | ok configs' =>
      rw [hsections] at hconfigs
      cases hconfigs
      rfl

theorem zero_notMem_mapnik :
  0 ∉ ofString "mapnik"
  := by decide

theorem zero_notMem_default :
  0 ∉ ofString "default"
  := by decide

/-- A configuration file with a render daemon, two slaves and a map. -/
def sampleConfigFile (one two : ℤ) : List IniSection :=
  sampleSlaves one two ++
    [sampleRenderd (ofString "mapnik") zero_notMem_mapnik 0,
     sampleRenderd (ofString "default") zero_notMem_default 0]

/-- The sum of the threads of the slaves, the number of entries that are allocated and the number
of those that are written. -/
def sampleSpawn (parsed : ParsedConfig) : Option (ℤ × ℕ × ℕ) := do
  let num ← numSlaveThreads parsed.configSlaves 0
  return (num.toInt, allocatedSlaves num, spawnSlaves parsed.configSlaves num)

end RenderdConfig
