import ModTile.StoreFileExpire
import ModTile.StoreMemcached

/-!
# The file store as a map

All calls of `store_file.c` on one directory, in any order: metatiles are saved, marked as expired
and deleted, tiles are read and their state is asked for.  The disk has the contents and the times
of the files, and next to it stands the map that the store is for, from metatiles to what has been
saved last and the time of it.

The store refines the map.  A metatile with other options, of another map or at another place has
another file, and no temporary file, which may be left by a call that fails, has the name of one.
The calls that delete and expire do not look at the options, and only find metatiles without.

A tile counts as expired if it is older than the last import of the data for its map, which is
known by the time of a file.
-/

open StoreFileUtils (metaText xyzoToMeta xyzToMeta ValidName ValidTile Fits)
open StoreMemcached (MetaKey tileKey)
open ObjectStore (origin)
open Transition

namespace StoreFile

/-- The files with their times and the times of the last change of their status. -/
structure Disk where
  files : Files
  times : Times
  ctimes : List UInt8 → ℤ

/-! ### The time of the last import -/

/-- The end of the name of the file that is touched by an import. -/
def planetTimestamp : List UInt8 := Bytes.ofString "/planet-import-complete"

/-- The name of the file for a map, or of the one for all maps. -/
def planetPath (tileDir xmlname : List UInt8) : List UInt8 :=
  if xmlname = [] then tileDir ++ StoreFileUtils.slash :: planetTimestamp
  else tileDir ++ StoreFileUtils.slash :: (xmlname ++ StoreFileUtils.slash :: planetTimestamp)

/-- `get_planet_time`, with the time of the clock: the time of the file for the map, of the one for
all maps, or three days ago. -/
def getPlanetTime (tileDir : List UInt8) (times : Times) (xmlname : List UInt8) (now : ℤ) : ℤ :=
  match if xmlname = [] then none else times ((planetPath tileDir xmlname).take (pathMax - 1)) with
  | some st => st.mtime.sec
  | none =>
      match times ((planetPath tileDir []).take (pathMax - 1)) with
      | some st => st.mtime.sec
      | none => now - 3 * 24 * 60 * 60

/-! ### The calls -/

/-- What `file_tile_stat` returns. -/
structure TileStat where
  size : ℤ
  mtime : ℤ
  atime : ℤ
  ctime : ℤ
  expired : ℤ
  deriving DecidableEq

/-- What `stat` tells of a file: its size and its times. -/
def Disk.stat (d : Disk) (path : List UInt8) : Option (ℕ × FileTimes × ℤ) :=
  match d.files path, d.times path with
  | some content, some st => some (content.length, st, d.ctimes path)
  | _, _ => none

/-- The state of the metatile of a tile. -/
def fileTileStat (tileDir : List UInt8) (d : Disk) (xmlconfig options : List UInt8)
    (x y z : Int32) (now : ℤ) : TileStat :=
  let tileStat : TileStat :=
    match d.stat (xyzoToMeta pathMax tileDir xmlconfig options x y z).1 with
    | none => ⟨-1, 0, 0, 0, 0⟩
    | some (size, st, ctime) => ⟨size, st.mtime.sec, st.atime.sec, ctime, 0⟩
  if tileStat.mtime < getPlanetTime tileDir d.times xmlconfig now then
    { tileStat with expired := 1 }
  else { tileStat with expired := 0 }

/-- The times of the files after a metatile has been saved.  The temporary file gets the times
`stamp`, and keeps them when it is renamed. -/
def savedTimes (t : MetaTile) (tileDir : List UInt8) (times : Times) (allocated : Bool)
    (w : WriteOutcome) (stamp : FileTimes) : Times :=
  let metaPath := (xyzoToMeta pathMax tileDir t.xmlconfig t.options t.x t.y t.z).1
  let tmp := tmpPath metaPath w.thread
  if allocated && w.allocated && w.mkdirp && w.opened then
    let times := Function.update times tmp (some stamp)
    if w.written ≠ (Int32.ofInt t.length).toInt then times
    else if w.renamed then Function.update (Function.update times metaPath (some stamp)) tmp none
    else Function.update times tmp none
  else times

/-- What `file_metatile_delete` returns, and the disk after it, where `unlinked` says whether
`unlink` succeeds for a file that exists. -/
def fileMetatileDelete (tileDir : List UInt8) (d : Disk) (xmlconfig : List UInt8) (x y z : Int32)
    (unlinked : Bool) : ℤ × Disk :=
  let metaPath := (xyzToMeta pathMax tileDir xmlconfig x y z).1
  if unlinked && (d.files metaPath).isSome then
    (0, { d with
      files := Function.update d.files metaPath none
      times := Function.update d.times metaPath none })
  else (-1, d)

/-! ### The store and the map -/

/-- What has been saved last for a metatile, and the modification time that it has. -/
structure SavedTile where
  tile : MetaTile
  mtime : ℤ

/-- The disk, what has been saved for every metatile, and when the data were imported for every map
and, under the empty name, for all maps. -/
structure FileStore where
  disk : Disk
  saved : MetaKey → Option SavedTile
  imported : List UInt8 → Option ℤ

/-- A call of the store, with what the operating system does.  A file that is read may get another
access time, and an import touches a file. -/
inductive StoreCall where
  | save (t : MetaTile) (allocated : Bool) (w : WriteOutcome) (stamp : FileTimes) (ctime : ℤ)
  | delete (xmlconfig : List UInt8) (x y z : Int32) (unlinked : Bool)
  | expire (xmlconfig : List UInt8) (x y z : Int32) (touched : Bool) (ctime : ℤ)
  | access (path : List UInt8) (atime : Timestamp)
  | planetImport (xmlname : List UInt8) (stamp : FileTimes) (ctime : ℤ)

namespace FileStore

/-- The store before the first call. -/
def init : FileStore where
  disk := { files := fun _ => none, times := fun _ => none, ctimes := fun _ => 0 }
  saved := fun _ => none
  imported := fun _ => none

/-- One call, on the disk and on the map. -/
def step (tileDir : List UInt8) (s : FileStore) : StoreCall → Option FileStore
  | .save t allocated w stamp ctime =>
      let r := StoreFile.save t tileDir s.disk.files allocated w
      let metaPath := (xyzoToMeta pathMax tileDir t.xmlconfig t.options t.x t.y t.z).1
      some { s with
        disk := {
          files := r.2
          times := savedTimes t tileDir s.disk.times allocated w stamp
          ctimes := Function.update s.disk.ctimes metaPath ctime }
        saved :=
          if r.1 then
            Function.update s.saved (StoreMemcached.State.keyOf t) (some ⟨t, stamp.mtime.sec⟩)
          else s.saved }
  | .delete xmlconfig x y z unlinked =>
      let r := fileMetatileDelete tileDir s.disk xmlconfig x y z unlinked
      some { s with
        disk := r.2
        saved :=
          if r.1 = 0 then Function.update s.saved (tileKey xmlconfig [] x y z) none else s.saved }
  | .expire xmlconfig x y z touched ctime =>
      let key := tileKey xmlconfig [] x y z
      some { s with
        disk := { s.disk with
          times := (fileMetatileExpire tileDir s.disk.times xmlconfig x y z touched).2
          ctimes := Function.update s.disk.ctimes (xyzToMeta pathMax tileDir xmlconfig x y z).1
            ctime }
        saved :=
          if touched then
            Function.update s.saved key
              ((s.saved key).map fun e => { e with mtime := modtime e.mtime })
          else s.saved }
  | .access path atime =>
      some { s with
        disk := { s.disk with
          times := Function.update s.disk.times path
            ((s.disk.times path).map fun st => { st with atime := atime }) } }
  | .planetImport xmlname stamp ctime =>
      let path := planetPath tileDir xmlname
      some { s with
        disk := {
          files := Function.update s.disk.files path (some [])
          times := Function.update s.disk.times path (some stamp)
          ctimes := Function.update s.disk.ctimes path ctime }
        imported := Function.update s.imported xmlname (some stamp.mtime.sec) }

end FileStore

/-- The path of a metatile. -/
def keyPath (tileDir : List UInt8) (k : MetaKey) : List UInt8 :=
  (xyzoToMeta pathMax tileDir k.xmlconfig k.options k.x k.y k.z).1

/-- The key is one of a metatile of a square map, and its path is not truncated. -/
structure KeyValid (tileDir : List UInt8) (k : MetaKey) : Prop where
  name : ValidName k.xmlconfig
  tile : ValidTile k.x k.y k.z
  x : origin k.x = k.x
  y : origin k.y = k.y
  fits : Fits pathMax tileDir k.xmlconfig k.options k.x k.y k.z

/-- The condition on a call: the metatile is one of a square map, and no path is truncated. -/
def Plain (tileDir : List UInt8) (_ : FileStore) : StoreCall → Prop
  | .save t _ _ _ _ => t.Aligned ∧ t.Small ∧ KeyValid tileDir (StoreMemcached.State.keyOf t)
  | .delete xmlconfig x y z _ | .expire xmlconfig x y z _ _ =>
      ValidName xmlconfig ∧ ValidTile x y z ∧ Fits pathMax tileDir xmlconfig [] x y z
  | .access _ _ => True
  | .planetImport xmlname _ _ =>
      (xmlname = [] ∨ ValidName xmlname) ∧ (planetPath tileDir xmlname).length < pathMax

/-! ### The names of the files -/

variable {tileDir xmlconfig options : List UInt8} {x y z : Int32} {k k' : MetaKey}

theorem toInt_origin :
  (origin x).toInt = x.toInt - x.toInt % 8
  := Bits.toInt_and_not_seven

theorem mod_of_origin (h : origin x = x) :
  x.toInt % 8 = 0
  := by
  have hmask := toInt_origin (x := x)
  rw [h] at hmask
  omega

theorem hash_origin :
  StoreFileUtils.hash (origin x) (origin y) = StoreFileUtils.hash x y
  := by
  have hx : origin x &&& ~~~7 = x &&& ~~~7 := StoreMemcached.origin_origin
  have hy : origin y &&& ~~~7 = y &&& ~~~7 := StoreMemcached.origin_origin
  rw [StoreFileUtils.hash, StoreFileUtils.hash, hx, hy]

/-- A tile has the path of its metatile. -/
theorem keyPath_tileKey :
  keyPath tileDir (tileKey xmlconfig options x y z) =
    (xyzoToMeta pathMax tileDir xmlconfig options x y z).1
  := by
  rw [keyPath, tileKey, xyzoToMeta, xyzoToMeta,
    StoreFileUtils.metaText_eq_iff.mpr ⟨rfl, hash_origin⟩]

/-- The metatile of a tile of a square map is one of the map. -/
theorem keyValid_tileKey (hname : ValidName xmlconfig) (htile : ValidTile x y z)
    (hfits : Fits pathMax tileDir xmlconfig options x y z) :
  KeyValid tileDir (tileKey xmlconfig options x y z)
  := by
  have hx0 := htile.x_nonneg
  have hy0 := htile.y_nonneg
  have hx1 := htile.x_lt
  have hy1 := htile.y_lt
  constructor
  case name => exact hname
  case tile =>
    constructor
    case zoom_nonneg => exact htile.zoom_nonneg
    case zoom_le => exact htile.zoom_le
    case x_nonneg =>
      dsimp only [tileKey]
      rw [toInt_origin]
      omega
    case x_lt =>
      dsimp only [tileKey]
      rw [toInt_origin]
      omega
    case y_nonneg =>
      dsimp only [tileKey]
      rw [toInt_origin]
      omega
    case y_lt =>
      dsimp only [tileKey]
      rw [toInt_origin]
      omega
  case x => exact StoreMemcached.origin_origin
  case y => exact StoreMemcached.origin_origin
  case fits =>
    rw [Fits, tileKey, StoreFileUtils.metaText_eq_iff.mpr ⟨rfl, hash_origin⟩]
    exact hfits

/-- Different metatiles have different files. -/
theorem KeyValid.eq_of_keyPath (h : KeyValid tileDir k) (h' : KeyValid tileDir k')
    (heq : keyPath tileDir k = keyPath tileDir k') :
  k = k'
  := by
  rw [keyPath, keyPath, StoreFileUtils.path_eq_metaText h.fits,
    StoreFileUtils.path_eq_metaText h'.fits] at heq
  have hscan := congrArg (fun s => (StoreFileUtils.afterTilepath tileDir s).bind
    StoreFileUtils.scanXmlconfig) heq
  dsimp only [metaText] at hscan
  rw [StoreFileUtils.afterTilepath_append, StoreFileUtils.afterTilepath_append, Option.bind_some,
    Option.bind_some, StoreFileUtils.scanXmlconfig_append h.name,
    StoreFileUtils.scanXmlconfig_append h'.name] at hscan
  obtain ⟨hxmlconfig, hrest⟩ := Prod.mk.inj (Option.some.inj hscan)
  obtain ⟨hz, hhash, hoptions⟩ := StoreFileUtils.zoomText_inj ((List.cons_inj_right _).mp hrest)
  obtain ⟨hx, hy⟩ := (h.tile.hash_eq_iff h'.tile).mp hhash
  have horigin : ∀ {x x' : Int32}, origin x = x → origin x' = x' →
      x.toInt / metatile = x'.toInt / metatile → x = x' := by
    intro x x' hx hx' hdiv
    have hmod := mod_of_origin hx
    have hmod' := mod_of_origin hx'
    apply Int32.toInt_inj.mp
    rw [metatile] at hdiv
    omega
  obtain ⟨xmlconfig, options, x, y, z⟩ := k
  obtain ⟨xmlconfig', options', x', y', z'⟩ := k'
  obtain rfl : xmlconfig = xmlconfig' := hxmlconfig
  obtain rfl : options = options' := hoptions
  obtain rfl : z = z' := hz
  obtain rfl : x = x' := horigin h.x h'.x hx
  obtain rfl : y = y' := horigin h.y h'.y hy
  rfl

/-- The name of a metatile ends with the letter `a`. -/
theorem getLast?_keyPath (h : KeyValid tileDir k) :
  (keyPath tileDir k).getLast? = some 97
  := by
  have hsuffix : ∀ options, (StoreFileUtils.metaSuffix options).getLast? = some 97 := by
    intro options
    rw [StoreFileUtils.metaSuffix]
    split_ifs
    · rfl
    · rw [List.getLast?_append]
      rfl
  rw [keyPath, StoreFileUtils.path_eq_metaText h.fits, metaText]
  simp [List.getLast?_append, List.getLast?_cons, hsuffix]

/-- The name of a temporary file ends with a digit. -/
theorem getLast?_tmpPath (metaPath : List UInt8) (thread : ℕ) :
  ∃ c, (tmpPath metaPath thread).getLast? = some c ∧ Bytes.isDigit c
  := by
  obtain ⟨c, hc⟩ : ∃ c, ((Bytes.decimal thread).take 22).getLast? = some c := by
    apply Option.ne_none_iff_exists'.mp
    rw [ne_eq, List.getLast?_eq_none_iff, List.take_eq_nil_iff, not_or]
    exact ⟨by decide, Bytes.decimal_ne_nil⟩
  use c
  constructor
  · have htake : tmpPath metaPath thread =
        metaPath ++ (Bytes.ofString "." ++ (Bytes.decimal thread).take 22) := by
      rw [tmpPath, List.take_length_add_append]
      rfl
    rw [htake, List.getLast?_append, List.getLast?_append, hc]
    rfl
  · exact Bytes.isDigit_of_mem_decimal (List.mem_of_mem_take (List.mem_of_getLast? hc))

/-- The name of a file that an import touches ends with the letter `e`. -/
theorem getLast?_planetPath (xmlname : List UInt8) :
  (planetPath tileDir xmlname).getLast? = some 101
  := by
  have hend : planetTimestamp.getLast? = some 101 := rfl
  rw [planetPath]
  split_ifs <;> simp [List.getLast?_append, List.getLast?_cons, hend]

/-- No temporary file has the name of a metatile. -/
theorem KeyValid.keyPath_ne_tmpPath (h : KeyValid tileDir k) (metaPath : List UInt8)
    (thread : ℕ) :
  keyPath tileDir k ≠ tmpPath metaPath thread
  := by
  intro heq
  obtain ⟨c, hc, hdigit⟩ := getLast?_tmpPath metaPath thread
  rw [← heq, getLast?_keyPath h] at hc
  obtain rfl := Option.some.inj hc
  cases hdigit

/-- No file that an import touches has the name of a metatile. -/
theorem KeyValid.keyPath_ne_planetPath (h : KeyValid tileDir k) (xmlname : List UInt8) :
  keyPath tileDir k ≠ planetPath tileDir xmlname
  := by
  intro heq
  have hlast := getLast?_keyPath h
  rw [heq, getLast?_planetPath] at hlast
  cases hlast

theorem planetPath_ne_tmpPath (xmlname metaPath : List UInt8) (thread : ℕ) :
  planetPath tileDir xmlname ≠ tmpPath metaPath thread
  := by
  intro heq
  obtain ⟨c, hc, hdigit⟩ := getLast?_tmpPath metaPath thread
  rw [← heq, getLast?_planetPath] at hc
  obtain rfl := Option.some.inj hc
  cases hdigit

/-- Different maps have different files for imports. -/
theorem planetPath_injective :
  Function.Injective (planetPath tileDir)
  := by
  intro xmlname xmlname' h
  have hlen := congrArg List.length h
  rw [planetPath, planetPath] at h hlen
  split_ifs at h hlen with hnil hnil' hnil'
  · rw [hnil, hnil']
  · simp only [List.length_append, List.length_cons] at hlen
    omega
  · simp only [List.length_append, List.length_cons] at hlen
    omega
  · exact List.append_cancel_right ((List.cons_inj_right _).mp (List.append_cancel_left h))

/-! ### The calls keep the map -/

/-- The file of a metatile is what has been saved, if anything. -/
def Stored (content : Option (List UInt8)) (st : Option FileTimes) : Option SavedTile → Prop
  | none => content = none ∧ st = none
  | some e => content = some e.tile.metatilebuffer ∧ ∃ atime nsec, st = some ⟨atime, e.mtime, nsec⟩

/-- The disk has what the map has. -/
structure Represents (tileDir : List UInt8) (s : FileStore) : Prop where
  sound : ∀ k e, s.saved k = some e → e.tile.Aligned ∧ e.tile.Small
  stored : ∀ k, KeyValid tileDir k →
    Stored (s.disk.files (keyPath tileDir k)) (s.disk.times (keyPath tileDir k)) (s.saved k)
  imported : ∀ xmlname, (planetPath tileDir xmlname).length < pathMax →
    (s.disk.times (planetPath tileDir xmlname)).map (fun st => st.mtime.sec) = s.imported xmlname

variable {s s' : FileStore} {t : MetaTile} {allocated : Bool} {w : WriteOutcome}
  {stamp : FileTimes} {files : Files} {times : Times}

/-- A metatile is saved: its file gets its bytes and its times, and no other file is touched but the
temporary one; or only that one is touched. -/
theorem save_cases (ha : t.Aligned) (hs : t.Small) {metaPath tmp : List UInt8}
    (hpath : (xyzoToMeta pathMax tileDir t.xmlconfig t.options t.x t.y t.z).1 = metaPath)
    (htmp : tmpPath metaPath w.thread = tmp) {r : Bool × Files} {times' : Times}
    (hr : save t tileDir files allocated w = r)
    (htimes : savedTimes t tileDir times allocated w stamp = times') :
  (r.1 = true ∧ r.2 metaPath = some t.metatilebuffer ∧ times' metaPath = some stamp ∧
      ∀ p, p ≠ metaPath → p ≠ tmp → r.2 p = files p ∧ times' p = times p) ∨
    (r.1 = false ∧ ∀ p, p ≠ tmp → r.2 p = files p ∧ times' p = times p)
  := by
  have hne : metaPath ≠ tmp := by
    rw [← htmp]
    exact (tmpPath_ne metaPath w.thread).symm
  have hlength := MetaTile.length_eq_length_metatilebuffer ha hs
  have hsize : (Int32.ofInt t.length).toInt = t.length := by
    rw [StoreMemcached.toInt_ofInt_length ha hs, hlength]
  have hret : decide ((-1 : ℤ) = t.length) = false := by
    rw [decide_eq_false_iff_not]
    omega
  have hframe : ∀ {v : Option (List UInt8)} {v' : Option FileTimes}, ∀ p, p ≠ tmp →
      Function.update files tmp v p = files p ∧ Function.update times tmp v' p = times p := by
    intro v v' p hp
    rw [Function.update_of_ne hp, Function.update_of_ne hp]
    exact ⟨rfl, rfl⟩
  subst hr htimes
  simp only [save, savedTimes, fileMetatileWrite, hpath, htmp, hsize, Bool.and_assoc]
  cases allocated with
  | false => exact .inr ⟨rfl, fun _ _ => ⟨rfl, rfl⟩⟩
  | true =>
      simp only [if_true, Bool.true_and]
      cases hopen : w.allocated && (w.mkdirp && w.opened) with
      | false =>
          right
          simp only [Bool.false_eq_true, if_false, and_self, implies_true, and_true]
          exact hret
      | true =>
          simp only [if_true]
          by_cases hwritten : w.written = t.length
          · have hfull : t.metatilebuffer.take w.written.toNat = t.metatilebuffer := by
              apply List.take_of_length_le
              omega
            rw [if_neg (not_not.mpr hwritten), if_neg (not_not.mpr hwritten), hfull]
            cases w.renamed with
            | true =>
                left
                simp only [if_true, decide_true, Function.update_of_ne hne, Function.update_self,
                  true_and]
                intro p hp hp'
                simp only [Function.update_of_ne hp, Function.update_of_ne hp', and_self]
            | false =>
                right
                simp only [Bool.false_eq_true, if_false, Function.update_idem]
                exact ⟨hret, hframe⟩
          · right
            rw [if_pos hwritten, if_pos hwritten]
            exact ⟨hret, hframe⟩

namespace Represents

/-- A call that changes the file of one metatile, and what is saved for it. -/
theorem update (h : Represents tileDir s) (hk : KeyValid tileDir k)
    (hsound : ∀ e, s'.saved k = some e → e.tile.Aligned ∧ e.tile.Small)
    (hstored : Stored (s'.disk.files (keyPath tileDir k)) (s'.disk.times (keyPath tileDir k))
      (s'.saved k))
    (hsaved : ∀ k' ≠ k, s'.saved k' = s.saved k')
    (hother : ∀ k', KeyValid tileDir k' → k' ≠ k →
      s'.disk.files (keyPath tileDir k') = s.disk.files (keyPath tileDir k') ∧
        s'.disk.times (keyPath tileDir k') = s.disk.times (keyPath tileDir k'))
    (hplanet : ∀ xmlname,
      s'.disk.times (planetPath tileDir xmlname) = s.disk.times (planetPath tileDir xmlname))
    (himported : s'.imported = s.imported) :
  Represents tileDir s'
  := by
  constructor
  case sound =>
    intro k' e he
    rcases eq_or_ne k' k with rfl | hne
    · exact hsound e he
    · rw [hsaved k' hne] at he
      exact h.sound k' e he
  case stored =>
    intro k' hk'
    rcases eq_or_ne k' k with rfl | hne
    · exact hstored
    · rw [hsaved k' hne, (hother k' hk' hne).1, (hother k' hk' hne).2]
      exact h.stored k' hk'
  case imported =>
    intro xmlname hfits
    rw [hplanet, himported]
    exact h.imported xmlname hfits

theorem save {ctime : ℤ} (h : Represents tileDir s) (ha : t.Aligned) (hs : t.Small)
    (hk : KeyValid tileDir (StoreMemcached.State.keyOf t))
    (hstep : s.step tileDir (.save t allocated w stamp ctime) = some s') :
  Represents tileDir s'
  := by
  obtain rfl := Option.some.inj hstep
  have hpath : (xyzoToMeta pathMax tileDir t.xmlconfig t.options t.x t.y t.z).1 =
      keyPath tileDir (StoreMemcached.State.keyOf t) := rfl
  have hcases := save_cases ha hs hpath rfl
    (Eq.refl (StoreFile.save t tileDir s.disk.files allocated w))
    (Eq.refl (savedTimes t tileDir s.disk.times allocated w stamp))
  rcases hcases with ⟨hok, hfile, htime, hother⟩ | ⟨hok, hother⟩
  · refine h.update hk ?_ ?_ ?_ ?_ ?_ rfl
    · intro e he
      simp only [hok, if_true, Function.update_self] at he
      obtain rfl := Option.some.inj he
      exact ⟨ha, hs⟩
    · simp only [hok, if_true, Function.update_self, hfile, htime]
      exact ⟨rfl, stamp.atime, stamp.mtime.nsec, rfl⟩
    · intro k' hne
      simp only [hok, if_true, Function.update_of_ne hne]
    · intro k' hk' hne
      exact hother _ (fun heq => hne (hk'.eq_of_keyPath hk heq)) (hk'.keyPath_ne_tmpPath _ _)
    · intro xmlname
      exact (hother _ (hk.keyPath_ne_planetPath xmlname).symm (planetPath_ne_tmpPath _ _ _)).2
  · have hframe : ∀ k', KeyValid tileDir k' →
        (StoreFile.save t tileDir s.disk.files allocated w).2 (keyPath tileDir k') =
            s.disk.files (keyPath tileDir k') ∧
          savedTimes t tileDir s.disk.times allocated w stamp (keyPath tileDir k') =
            s.disk.times (keyPath tileDir k') :=
      fun k' hk' => hother _ (hk'.keyPath_ne_tmpPath _ _)
    constructor
    case sound =>
      intro k e he
      simp only [hok, Bool.false_eq_true, if_false] at he
      exact h.sound k e he
    case stored =>
      intro k' hk'
      simp only [hok, Bool.false_eq_true, if_false, (hframe k' hk').1, (hframe k' hk').2]
      exact h.stored k' hk'
    case imported =>
      intro xmlname hfits
      simp only [(hother _ (planetPath_ne_tmpPath xmlname _ _)).2]
      exact h.imported xmlname hfits

/-- The file of a metatile without options that has been deleted. -/
theorem delete {unlinked : Bool} (h : Represents tileDir s) (hname : ValidName xmlconfig)
    (htile : ValidTile x y z) (hfits : Fits pathMax tileDir xmlconfig [] x y z)
    (hstep : s.step tileDir (.delete xmlconfig x y z unlinked) = some s') :
  Represents tileDir s'
  := by
  obtain rfl := Option.some.inj hstep
  have hk := keyValid_tileKey hname htile hfits
  have hpath : (xyzToMeta pathMax tileDir xmlconfig x y z).1 =
      keyPath tileDir (tileKey xmlconfig [] x y z) := keyPath_tileKey.symm
  simp only [fileMetatileDelete, hpath]
  by_cases hgone :
      (unlinked && (s.disk.files (keyPath tileDir (tileKey xmlconfig [] x y z))).isSome) = true
  · simp only [hgone, if_true]
    refine h.update hk ?_ ?_ ?_ ?_ ?_ rfl
    · intro e he
      simp only [Function.update_self] at he
      cases he
    · simp only [Function.update_self]
      exact ⟨rfl, rfl⟩
    · intro k' hne
      simp only [Function.update_of_ne hne]
    · intro k' hk' hne
      have hpath : keyPath tileDir k' ≠ keyPath tileDir (tileKey xmlconfig [] x y z) :=
        fun heq => hne (hk'.eq_of_keyPath hk heq)
      simp only [Function.update_of_ne hpath, and_self]
    · intro xmlname
      simp only [Function.update_of_ne (hk.keyPath_ne_planetPath xmlname).symm]
  · have hret : ¬(-1 : ℤ) = 0 := by decide
    rw [if_neg hgone, if_neg hret]
    exact h

/-- The file of a metatile without options that has been marked as expired: its bytes stay. -/
theorem expire {touched : Bool} {ctime : ℤ} (h : Represents tileDir s)
    (hname : ValidName xmlconfig) (htile : ValidTile x y z)
    (hfits : Fits pathMax tileDir xmlconfig [] x y z)
    (hstep : s.step tileDir (.expire xmlconfig x y z touched ctime) = some s') :
  Represents tileDir s'
  := by
  obtain rfl := Option.some.inj hstep
  have hk := keyValid_tileKey hname htile hfits
  have hpath : (xyzToMeta pathMax tileDir xmlconfig x y z).1 =
      keyPath tileDir (tileKey xmlconfig [] x y z) := keyPath_tileKey.symm
  have hstored := h.stored _ hk
  simp only [fileMetatileExpire, hpath]
  cases he : s.saved (tileKey xmlconfig [] x y z) with
  | none =>
      rw [he] at hstored
      have hnone : Function.update s.saved (tileKey xmlconfig [] x y z) none = s.saved := by
        rw [← he, Function.update_eq_self]
      simp only [hstored.2, Option.map_none, hnone, ite_self]
      exact ⟨h.sound, h.stored, h.imported⟩
  | some e =>
      rw [he] at hstored
      obtain ⟨hfile, atime, nsec, htime⟩ := hstored
      simp only [htime, Option.map_some]
      cases touched with
      | false =>
          simp only [Bool.false_eq_true, if_false]
          exact ⟨h.sound, h.stored, h.imported⟩
      | true =>
          simp only [if_true]
          refine h.update hk ?_ ?_ ?_ ?_ ?_ rfl
          · intro e' he'
            simp only [Function.update_self] at he'
            obtain rfl := Option.some.inj he'
            exact h.sound _ e he
          · simp only [Function.update_self]
            exact ⟨hfile, ⟨atime.sec, 0⟩, 0, rfl⟩
          · intro k' hne
            simp only [Function.update_of_ne hne]
          · intro k' hk' hne
            have hpath : keyPath tileDir k' ≠ keyPath tileDir (tileKey xmlconfig [] x y z) :=
              fun heq => hne (hk'.eq_of_keyPath hk heq)
            simp only [Function.update_of_ne hpath, and_self]
          · intro xmlname
            simp only [Function.update_of_ne (hk.keyPath_ne_planetPath xmlname).symm]

/-- A file that is read gets another access time only. -/
theorem access {path : List UInt8} {atime : Timestamp} (h : Represents tileDir s)
    (hstep : s.step tileDir (.access path atime) = some s') :
  Represents tileDir s'
  := by
  obtain rfl := Option.some.inj hstep
  constructor
  case sound => exact h.sound
  case stored =>
    intro k hk
    have hstored := h.stored k hk
    rcases eq_or_ne (keyPath tileDir k) path with rfl | hne
    · simp only [Function.update_self]
      cases he : s.saved k with
      | none =>
          rw [he] at hstored
          rw [hstored.2]
          exact ⟨hstored.1, rfl⟩
      | some e =>
          rw [he] at hstored
          obtain ⟨hfile, _, nsec, htime⟩ := hstored
          rw [htime]
          exact ⟨hfile, atime, nsec, rfl⟩
    · simp only [Function.update_of_ne hne]
      exact hstored
  case imported =>
    intro xmlname hfits
    have himported := h.imported xmlname hfits
    rcases eq_or_ne (planetPath tileDir xmlname) path with rfl | hne
    · simp only [Function.update_self, Option.map_map]
      exact himported
    · simp only [Function.update_of_ne hne]
      exact himported

/-- An import touches its file, which is no metatile. -/
theorem planetImport {xmlname : List UInt8} {ctime : ℤ} (h : Represents tileDir s)
    (hstep : s.step tileDir (.planetImport xmlname stamp ctime) = some s') :
  Represents tileDir s'
  := by
  obtain rfl := Option.some.inj hstep
  constructor
  case sound => exact h.sound
  case stored =>
    intro k hk
    simp only [Function.update_of_ne (hk.keyPath_ne_planetPath xmlname)]
    exact h.stored k hk
  case imported =>
    intro xmlname' hfits
    rcases eq_or_ne xmlname' xmlname with rfl | hne
    · simp only [Function.update_self]
      rfl
    · simp only [Function.update_of_ne hne, Function.update_of_ne (planetPath_injective.ne hne)]
      exact h.imported xmlname' hfits

end Represents

theorem represents_init :
  Represents tileDir FileStore.init
  := by
  constructor
  case sound =>
    intro k e he
    cases he
  case stored => exact fun _ _ => ⟨rfl, rfl⟩
  case imported => exact fun _ _ => rfl

/-- Every call keeps the disk and the map together. -/
theorem step_represents {c : StoreCall} (h : Represents tileDir s) (hplain : Plain tileDir s c)
    (hstep : s.step tileDir c = some s') :
  Represents tileDir s'
  := by
  cases c with
  | save t allocated w stamp ctime => exact h.save hplain.1 hplain.2.1 hplain.2.2 hstep
  | delete xmlconfig x y z unlinked => exact h.delete hplain.1 hplain.2.1 hplain.2.2 hstep
  | expire xmlconfig x y z touched ctime => exact h.expire hplain.1 hplain.2.1 hplain.2.2 hstep
  | access path atime => exact h.access hstep
  | planetImport xmlname stamp ctime => exact h.planetImport hstep

theorem reach_represents
    (h : Reach (FileStore.step tileDir) (Plain tileDir) FileStore.init s) :
  Represents tileDir s
  := h.invariant represents_init fun _ _ _ hs hplain hstep => step_represents hs hplain hstep

/-! ### What is read and what is asked for -/

/-- The result of reading the tile in the place `i` of what has been saved. -/
def savedRead (path reason : List UInt8) (i : ℕ) : Option SavedTile → TileRead
  | none => .failure (.opening path reason) [] none
  | some e => ⟨(e.tile.tileAt i).length, e.tile.tileAt i, some 0, none⟩

/-- The size of the file for what has been saved. -/
def savedSize : Option SavedTile → ℤ
  | none => -1
  | some e => e.tile.metatilebuffer.length

/-- The time of what has been saved. -/
def savedMtime : Option SavedTile → ℤ
  | none => 0
  | some e => e.mtime

/-- The state is that of what has been saved, which is expired if it is older than an import. -/
structure TileStat.Agrees (st : TileStat) (e : Option SavedTile) (importTime : ℤ) : Prop where
  size : st.size = savedSize e
  mtime : st.mtime = savedMtime e
  expired : st.expired = if savedMtime e < importTime then 1 else 0

/-- The time of the last import for a map. -/
def FileStore.importTime (s : FileStore) (xmlconfig : List UInt8) (now : ℤ) : ℤ :=
  ((s.imported xmlconfig).or (s.imported [])).getD (now - 3 * 24 * 60 * 60)

theorem length_planetPath_nil_le (xmlname : List UInt8) :
  (planetPath tileDir []).length ≤ (planetPath tileDir xmlname).length
  := by
  rw [planetPath, planetPath, if_pos rfl]
  split_ifs
  · rfl
  · simp only [List.length_append, List.length_cons]
    omega

/-- The times of the files for imports are those of the last imports. -/
theorem Represents.getPlanetTime (h : Represents tileDir s) (hname : xmlconfig ≠ [])
    (hfits : (planetPath tileDir xmlconfig).length < pathMax) (now : ℤ) :
  getPlanetTime tileDir s.disk.times xmlconfig now = s.importTime xmlconfig now
  := by
  have hfits' := (length_planetPath_nil_le xmlconfig).trans_lt hfits
  have htake : ∀ {l : List UInt8}, l.length < pathMax → l.take (pathMax - 1) = l :=
    fun hl => List.take_of_length_le (Nat.le_sub_one_of_lt hl)
  rw [StoreFile.getPlanetTime, FileStore.importTime, if_neg hname, htake hfits, htake hfits',
    ← h.imported xmlconfig hfits, ← h.imported [] hfits']
  cases s.disk.times (planetPath tileDir xmlconfig) with
  | some st => rfl
  | none =>
      cases s.disk.times (planetPath tileDir []) with
      | some st => rfl
      | none => rfl

/-- A tile is read from what has been saved for its metatile. -/
theorem Represents.fileTileRead {sz : ℕ} {o : ReadOutcome} (h : Represents tileDir s)
    (hk : KeyValid tileDir (tileKey xmlconfig options x y z)) (ho : o.Undisturbed)
    (hsz : ∀ e ∈ s.saved (tileKey xmlconfig options x y z),
      (e.tile.tileAt (MetaTile.xyzToMetaOffset x y)).length ≤ sz) :
  fileTileRead tileDir s.disk.files xmlconfig options x y z sz o =
    savedRead (xyzoToMeta pathMax tileDir xmlconfig options x y z).1 o.reason
      (MetaTile.xyzToMetaOffset x y) (s.saved (tileKey xmlconfig options x y z))
  := by
  have hstored := h.stored _ hk
  rw [keyPath_tileKey] at hstored
  cases he : s.saved (tileKey xmlconfig options x y z) with
  | none =>
      rw [he] at hstored
      rw [StoreFile.fileTileRead, ho.allocated, ho.opened, hstored.1]
      rfl
  | some e =>
      rw [he] at hstored
      obtain ⟨ha, hs⟩ := h.sound _ e he
      obtain ⟨haccepted, hbytes⟩ :=
        accepted_metatilebuffer ha hs (ObjectStore.xyzToMetaOffset_lt x y) (hsz e he)
      have hoffset : (xyzoToMeta pathMax tileDir xmlconfig options x y z).2.toNat =
          MetaTile.xyzToMetaOffset x y := offset_eq_xyzToMetaOffset
      rw [← hoffset] at haccepted hbytes
      rw [fileTileRead_accepted ho hstored.1 haccepted, hbytes, hoffset]
      rfl

/-- The state of a tile is that of what has been saved for its metatile. -/
theorem Represents.fileTileStat (h : Represents tileDir s)
    (hk : KeyValid tileDir (tileKey xmlconfig options x y z))
    (hfits : (planetPath tileDir xmlconfig).length < pathMax) (now : ℤ) :
  (fileTileStat tileDir s.disk xmlconfig options x y z now).Agrees
    (s.saved (tileKey xmlconfig options x y z)) (s.importTime xmlconfig now)
  := by
  have hplanet : StoreFile.getPlanetTime tileDir s.disk.times xmlconfig now =
      s.importTime xmlconfig now := h.getPlanetTime hk.name.ne_nil hfits now
  have hstored := h.stored _ hk
  rw [keyPath_tileKey] at hstored
  rw [StoreFile.fileTileStat, hplanet, Disk.stat]
  cases he : s.saved (tileKey xmlconfig options x y z) with
  | none =>
      rw [he] at hstored
      rw [hstored.1]
      dsimp only
      split_ifs with hold
      · exact ⟨rfl, rfl, (if_pos hold).symm⟩
      · exact ⟨rfl, rfl, (if_neg hold).symm⟩
  | some e =>
      rw [he] at hstored
      obtain ⟨hfile, atime, nsec, htime⟩ := hstored
      rw [hfile, htime]
      dsimp only
      split_ifs with hold
      · exact ⟨rfl, rfl, (if_pos hold).symm⟩
      · exact ⟨rfl, rfl, (if_neg hold).symm⟩

/-- A metatile can be saved in a directory with room for its path. -/
theorem exists_saved_sampleMetaTile
    (hfits : (metaText tileDir (Bytes.ofString "default") [] 8 16 5).length < pathMax) :
  ∃ s, Reach (FileStore.step tileDir) (Plain tileDir) FileStore.init s ∧
    s.saved (tileKey (Bytes.ofString "default") [] 11 17 5) = some ⟨sampleMetaTile, 1000⟩ ∧
    s.imported = fun _ => none
  := by
  have hname : ValidName (Bytes.ofString "default") := ⟨by decide, by decide, by decide⟩
  have hk : KeyValid tileDir (StoreMemcached.State.keyOf sampleMetaTile) :=
    keyValid_tileKey hname (by constructor <;> decide) hfits
  have hkey : tileKey (Bytes.ofString "default") [] 11 17 5 =
      StoreMemcached.State.keyOf sampleMetaTile := by decide +kernel
  have hlength : sampleMetaTile.length = 535 := by decide +kernel
  have hok : (save sampleMetaTile tileDir FileStore.init.disk.files true sampleWrite).1 = true := by
    simp [save, fileMetatileWrite, sampleWrite, hlength]
  have hplain : Plain tileDir FileStore.init
      (.save sampleMetaTile true sampleWrite ⟨⟨1000, 0⟩, ⟨1000, 0⟩⟩ 1000) :=
    ⟨aligned_sampleMetaTile, small_sampleMetaTile, hk⟩
  obtain ⟨s, hstep, hsaved, himported⟩ : ∃ s, FileStore.step tileDir FileStore.init
      (.save sampleMetaTile true sampleWrite ⟨⟨1000, 0⟩, ⟨1000, 0⟩⟩ 1000) = some s ∧
      s.saved (tileKey (Bytes.ofString "default") [] 11 17 5) = some ⟨sampleMetaTile, 1000⟩ ∧
      s.imported = fun _ => none :=
    ⟨_, rfl, by simp only [hkey, hok, if_true, Function.update_self], rfl⟩
  exact ⟨s, .tail _ .refl hplain hstep, hsaved, himported⟩

end StoreFile
