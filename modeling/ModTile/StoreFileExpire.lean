import ModTile.Calendar
import ModTile.StoreFile

/-!
# Marking a metatile as expired

`file_metatile_expire` of `store_file.c`.  A metatile is marked as expired by a modification time
that is 20 years earlier.  A metatile whose modification time is in 2015 or before counts as one
that has been marked already, so that it is not moved back again.

The times of a file have nanoseconds, and `utime` sets whole seconds.
-/

open StoreFileUtils (xyzToMeta)

namespace StoreFile

open Calendar

/-- A point of time with nanoseconds. -/
structure Timestamp where
  sec : ℤ
  nsec : ℕ
  deriving DecidableEq

/-- A point of time is not later than another. -/
def Timestamp.NotLater (s t : Timestamp) : Prop :=
  s.sec < t.sec ∨ s.sec = t.sec ∧ s.nsec ≤ t.nsec

/-- The times of a file. -/
structure FileTimes where
  atime : Timestamp
  mtime : Timestamp
  deriving DecidableEq

/-- The times of the files. -/
abbrev Times : Type := List UInt8 → Option FileTimes

/-- `gmtime_r`, which fails when the year is not an `int`. -/
def gmtimeR (t : ℤ) : Option Tm :=
  if -2 ^ 31 ≤ (gmtime t).year ∧ (gmtime t).year < 2 ^ 31 then some (gmtime t) else none

/-- The modification time that is set. -/
def modtime (mtime : ℤ) : ℤ :=
  match gmtimeR mtime with
  | none => 315558000
  | some touchCalendar =>
      if touchCalendar.year > 115 then
        mktime (touchCalendar.setYear (touchCalendar.year - 20))
      else mtime

/-- The times that `utime` sets. -/
def utime (actime modtime : ℤ) : FileTimes := ⟨⟨actime, 0⟩, ⟨modtime, 0⟩⟩

/-- What `file_metatile_expire` returns, and the times of the files after it, where `touched` says
whether `utime` succeeds. -/
def fileMetatileExpire (tileDir : List UInt8) (times : Times) (xmlconfig : List UInt8)
    (x y z : Int32) (touched : Bool) : ℤ × Times :=
  let name := (xyzToMeta pathMax tileDir xmlconfig x y z).1
  match times name with
  | none => (0, times)
  | some s =>
      if touched then
        (0, Function.update times name (some (utime s.atime.sec (modtime s.mtime.sec))))
      else (0, times)

variable {tileDir xmlconfig : List UInt8} {times : Times} {x y z : Int32} {mtime : ℤ}

theorem isSome_gmtimeR_iff {t : ℤ} :
  (gmtimeR t).isSome ↔ -2 ^ 31 ≤ (gmtime t).year ∧ (gmtime t).year < 2 ^ 31
  := by
  rw [gmtimeR]
  split_ifs with hyear
  · simpa using hyear
  · simpa using hyear

/-- The modification time that is set when `gmtime_r` succeeds. -/
theorem modtime_eq (h : (gmtimeR mtime).isSome) :
  modtime mtime =
    if (gmtime mtime).year > 115 then
      mktime ((gmtime mtime).setYear ((gmtime mtime).year - 20))
    else mtime
  := by
  have hdate : gmtimeR mtime = some (gmtime mtime) := if_pos (isSome_gmtimeR_iff.mp h)
  unfold modtime
  rw [hdate]

/-- A modification time that counts as marked is kept. -/
theorem modtime_of_le (h : (gmtimeR mtime).isSome) (hyear : (gmtime mtime).year ≤ 115) :
  modtime mtime = mtime
  := by
  rw [modtime_eq h, if_neg (not_lt.mpr hyear)]

/-- Another modification time is moved back to the date 20 years before. -/
theorem year_modtime (h : (gmtimeR mtime).isSome) (hyear : 115 < (gmtime mtime).year) :
  (gmtime (modtime mtime)).year = (gmtime mtime).year - 20
  := by
  rw [modtime_eq h, if_pos hyear]
  apply year_gmtime_mktime

theorem modtime_lt (h : (gmtimeR mtime).isSome) (hyear : 115 < (gmtime mtime).year) :
  modtime mtime < mtime
  := by
  by_contra hle
  have hmono := year_gmtime_mono (not_lt.mp hle)
  rw [year_modtime h hyear] at hmono
  omega

/-- `gmtime_r` succeeds for the modification time that is set. -/
theorem isSome_gmtimeR_modtime (h : (gmtimeR mtime).isSome) :
  (gmtimeR (modtime mtime)).isSome
  := by
  rcases le_or_gt (gmtime mtime).year 115 with hyear | hyear
  · rwa [modtime_of_le h hyear]
  · have hyear' := year_modtime h hyear
    rw [isSome_gmtimeR_iff] at h ⊢
    omega

/-- A modification time is moved back a second time exactly when it is in 2036 or later. -/
theorem modtime_modtime_iff (h : (gmtimeR mtime).isSome) :
  modtime (modtime mtime) = modtime mtime ↔ (gmtime mtime).year + 1900 ≤ 2035
  := by
  have h' := isSome_gmtimeR_modtime h
  rcases le_or_gt (gmtime mtime).year 115 with hyear | hyear
  · rw [modtime_of_le h hyear, modtime_of_le h hyear]
    simp only [true_iff]
    omega
  · have hyear' := year_modtime h hyear
    constructor
    · intro heq
      by_contra hlate
      have hlt := modtime_lt h' (by omega)
      omega
    · intro hearly
      apply modtime_of_le h'
      omega

/-- Marking a metatile whose file is there. -/
theorem fileMetatileExpire_of_some {s : FileTimes}
    (h : times (xyzToMeta pathMax tileDir xmlconfig x y z).1 = some s) :
  (fileMetatileExpire tileDir times xmlconfig x y z true).2
      (xyzToMeta pathMax tileDir xmlconfig x y z).1 =
    some (utime s.atime.sec (modtime s.mtime.sec))
  := by
  simp only [fileMetatileExpire, h, if_true, Function.update_self]

/-- A metatile that is marked as expired gets a modification time that is not later, and keeps the
seconds of its access time.  The whole access time is kept exactly when it has no nanoseconds.
Marking the metatile again keeps the modification time exactly when the first one was in 2035 or
earlier. -/
theorem fileMetatileExpire_twice {s : FileTimes}
    (h : times (xyzToMeta pathMax tileDir xmlconfig x y z).1 = some s)
    (hgmtime : (gmtimeR s.mtime.sec).isSome) :
  let name := (xyzToMeta pathMax tileDir xmlconfig x y z).1
  let once := (fileMetatileExpire tileDir times xmlconfig x y z true).2
  let twice := (fileMetatileExpire tileDir once xmlconfig x y z true).2
  ∃ s₁ s₂, once name = some s₁ ∧ twice name = some s₂ ∧
    s₁.mtime.NotLater s.mtime ∧
    s₁.atime.sec = s.atime.sec ∧ (s₁.atime = s.atime ↔ s.atime.nsec = 0) ∧
    (s₂.mtime = s₁.mtime ↔ (gmtime s.mtime.sec).year + 1900 ≤ 2035)
  := by
  intro name once twice
  have honce := fileMetatileExpire_of_some h
  have htwice := fileMetatileExpire_of_some honce
  refine ⟨_, _, honce, htwice, ?_, rfl, ?_, ?_⟩
  · rcases le_or_gt (gmtime s.mtime.sec).year 115 with hyear | hyear
    · right
      exact ⟨modtime_of_le hgmtime hyear, Nat.zero_le _⟩
    · left
      apply modtime_lt hgmtime hyear
  · obtain ⟨⟨sec, nsec⟩, mtime⟩ := s
    simp [utime, eq_comm]
  · rw [← modtime_modtime_iff hgmtime]
    simp [utime]

/-- A file whose times have no nanoseconds. -/
def sampleTimes (mtime : ℤ) : Times := fun _ => some ⟨⟨mtime, 0⟩, ⟨mtime, 0⟩⟩

/-- A metatile of the first of January 2020. -/
theorem fileMetatileExpire_twice_sample :
  ∃ s₁ s₂, (fileMetatileExpire [] (sampleTimes 1577836800) [] 0 0 0 true).2
      (xyzToMeta pathMax [] [] 0 0 0).1 = some s₁ ∧
    (fileMetatileExpire [] (fileMetatileExpire [] (sampleTimes 1577836800) [] 0 0 0 true).2 [] 0 0 0
      true).2 (xyzToMeta pathMax [] [] 0 0 0).1 = some s₂ ∧
    s₁.atime = ⟨1577836800, 0⟩ ∧ s₂.mtime = s₁.mtime
  := by
  have htimes : sampleTimes 1577836800 (xyzToMeta pathMax [] [] 0 0 0).1 =
      some ⟨⟨1577836800, 0⟩, ⟨1577836800, 0⟩⟩ := rfl
  have hgmtime : (gmtimeR 1577836800).isSome := by decide +kernel
  have hyear : (gmtime 1577836800).year + 1900 ≤ 2035 := by decide +kernel
  obtain ⟨s₁, s₂, honce, htwice, -, -, hatime, hmtime⟩ := fileMetatileExpire_twice htimes hgmtime
  exact ⟨s₁, s₂, honce, htwice, hatime.mpr rfl, hmtime.mpr hyear⟩

/-- A file of the first of January 2036 whose access time has nanoseconds. -/
def accessedTimes : Times := fun _ => some ⟨⟨5, 7⟩, ⟨2082758400, 0⟩⟩

/-- A metatile of the first of January 2036 is moved back to 2016, and then to 1996.  An access
time with nanoseconds loses them. -/
theorem fileMetatileExpire_again :
  gmtimeR 2082758400 ≠ none ∧ modtime 2082758400 = 1451606400 ∧
    modtime (modtime 2082758400) = 820454400 ∧
    (fileMetatileExpire [] accessedTimes [] 0 0 0 true).2
      (xyzToMeta pathMax [] [] 0 0 0).1 = some ⟨⟨5, 0⟩, ⟨1451606400, 0⟩⟩
  := by
  have honce : modtime 2082758400 = 1451606400 := by decide +kernel
  have htwice : modtime 1451606400 = 820454400 := by decide +kernel
  refine ⟨?_, honce, ?_, ?_⟩
  · apply Option.isSome_iff_ne_none.mp
    decide +kernel
  · rw [honce, htwice]
  · have htimes : accessedTimes (xyzToMeta pathMax [] [] 0 0 0).1 =
        some ⟨⟨5, 7⟩, ⟨2082758400, 0⟩⟩ := rfl
    rw [fileMetatileExpire_of_some htimes, honce]
    rfl

end StoreFile
