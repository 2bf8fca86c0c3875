import ModTile.Guarded
import ModTile.SubmitQueue
import ModTile.Transition
import Mathlib.Algebra.Order.BigOperators.Group.List
import Mathlib.Algebra.Order.Ring.Int
import Mathlib.Data.List.Induction
import Mathlib.Order.Bounds.Basic

/-!
# The statistics of the submitting programs

The functions `process` and `thread_main` of `render_submit_queue.c`, run by any number of
workers.  A worker takes the time, sends its command and waits for the answer.  When the tile is
done, it takes the time again and counts the request in the statistics of the zoom level, under
the lock `qStatsLock`.  Each statement under the lock is a step of its own.

The zoom level is an index into an array, and the counters are signed: an index outside of the
array and a result that does not fit are undefined, and the run ends there.
-/

open Transition

namespace SubmitQueue

/-! ### The time -/

/-- What `gettimeofday` returns: the microseconds are less than a second, and the time, which is
not before the epoch, can be told in milliseconds by a `time_t`. -/
structure Timeval where
  tvSec : Int64
  tvUsec : Int64
  tvSec_nonneg : 0 ≤ tvSec.toInt
  tvUsec_nonneg : 0 ≤ tvUsec.toInt
  tvUsec_lt : tvUsec.toInt < 1000000
  fits : tvSec.toInt * 1000 + tvUsec.toInt / 1000 < 2 ^ 63

namespace Timeval

/-- The time in milliseconds. -/
def inMilliseconds (tim : Timeval) : ℤ := tim.tvSec.toInt * 1000 + tim.tvUsec.toInt / 1000

/-- The time in milliseconds, as the program computes it. -/
def milliseconds (tim : Timeval) : Int64 := tim.tvSec * 1000 + tim.tvUsec / 1000

theorem inMilliseconds_nonneg (tim : Timeval) :
  0 ≤ tim.inMilliseconds
  := by
  have hsec := tim.tvSec_nonneg
  have husec := tim.tvUsec_nonneg
  rw [inMilliseconds]
  omega

/-- The computation does not overflow. -/
theorem toInt_milliseconds (tim : Timeval) :
  tim.milliseconds.toInt = tim.inMilliseconds
  := by
  have hsec := tim.tvSec_nonneg
  have husec := tim.tvUsec_nonneg
  have hlt := tim.tvUsec_lt
  have hfits := tim.fits
  have hthousand : (1000 : Int64).toInt = 1000 := rfl
  have hquotient : (tim.tvUsec / 1000).toInt = tim.tvUsec.toInt / 1000 := by
    rw [Int64.toInt_div, hthousand, Int.tdiv_eq_ediv_of_nonneg husec]
    apply Int.bmod_eq_of_le <;> omega
  have hproduct : (tim.tvSec * 1000).toInt = tim.tvSec.toInt * 1000 := by
    rw [Int64.toInt_mul, hthousand]
    apply Int.bmod_eq_of_le <;> omega
  rw [milliseconds, Int64.toInt_add, hproduct, hquotient]
  apply Int.bmod_eq_of_le <;> omega

/-- The difference of two times does not overflow either. -/
theorem toInt_milliseconds_sub (start finish : Timeval) :
  (finish.milliseconds - start.milliseconds).toInt = finish.inMilliseconds - start.inMilliseconds
  := by
  have hstart := start.inMilliseconds_nonneg
  have hfinish := finish.inMilliseconds_nonneg
  have hstartLt := start.fits
  have hfinishLt := finish.fits
  rw [inMilliseconds] at hstart hfinish
  rw [Int64.toInt_sub, toInt_milliseconds, toInt_milliseconds, inMilliseconds, inMilliseconds]
  apply Int.bmod_eq_of_le <;> omega

end Timeval

/-! ### The statistics -/

/-- `struct speed_stat`: the statistics of a zoom level. -/
structure SpeedStat where
  timeMin : Int64
  timeMax : Int64
  timeTotal : Int64
  noRendered : Int32

/-- `struct speed_stats`: the statistics of all zoom levels. -/
abbrev SpeedStats : Type := Fin (maxZoom + 1) → SpeedStat

/-- What has no meaning: an index outside of the array of the statistics, and a result that does
not fit. -/
inductive Undefined where
  | outOfBounds (z : Int32)
  | overflow
  deriving DecidableEq

/-- The result of an operation on `int`s. -/
def intResult (n : ℤ) : Except Undefined Int32 :=
  if -2 ^ 31 ≤ n ∧ n < 2 ^ 31 then .ok (Int32.ofInt n) else .error .overflow

/-- The result of an operation on `time_t`s. -/
def timeResult (n : ℤ) : Except Undefined Int64 :=
  if -2 ^ 63 ≤ n ∧ n < 2 ^ 63 then .ok (Int64.ofInt n) else .error .overflow

/-- The statements of `process` that change the statistics, told by the field that they change. -/
inductive Field where
  | noRendered
  | timeTotal
  | timeMin
  | timeMax

/-- A statement that changes the statistics of the zoom level `z` for a request that took the time
`t1`. -/
structure Statement where
  z : Int32
  t1 : Int64
  field : Field

/-- The statistics of the zoom level after a statement. -/
def SpeedStat.exec (stat : SpeedStat) (k : Statement) : Except Undefined SpeedStat :=
  match k.field with
  | .noRendered =>
      (intResult (stat.noRendered.toInt + 1)).map fun n => { stat with noRendered := n }
  | .timeTotal =>
      (timeResult (stat.timeTotal.toInt + k.t1.toInt)).map fun t => { stat with timeTotal := t }
  | .timeMin =>
      .ok { stat with
        timeMin := if stat.timeMin > k.t1 ∨ stat.timeMin = 0 then k.t1 else stat.timeMin }
  | .timeMax =>
      .ok { stat with timeMax := if stat.timeMax < k.t1 then k.t1 else stat.timeMax }

theorem toNat_zoom_lt {z : Int32} (h : 0 ≤ z.toInt ∧ z.toInt ≤ maxZoom) :
  z.toInt.toNat < maxZoom + 1
  := by omega

/-- The place of a zoom level in the array of the statistics. -/
def zoomIndex (z : Int32) : Option (Fin (maxZoom + 1)) :=
  if h : 0 ≤ z.toInt ∧ z.toInt ≤ maxZoom then some ⟨z.toInt.toNat, toNat_zoom_lt h⟩ else none

/-- The statistics after a statement. -/
def exec : SpeedStats → Statement → Except Undefined SpeedStats :=
  Loop.onCell (fun k => zoomIndex k.z) (fun k => .outOfBounds k.z) SpeedStat.exec

/-- The statements between the lock and the unlock of `qStatsLock`, in their order. -/
def statements (z : Int32) (t1 : Int64) : List Statement :=
  [⟨z, t1, .noRendered⟩, ⟨z, t1, .timeTotal⟩, ⟨z, t1, .timeMin⟩, ⟨z, t1, .timeMax⟩]

/-! ### The workers -/

/-- Where a worker is: in `thread_main`, before its first connection, before `fetch`, before a
call of `process` for a command, after such a call has lost the connection, or at the end; or in
`process`, before it sends the command, before it has received the answer, after it has been told
that the tile is done, before it has the lock, and with the lock. -/
inductive Worker where
  | starting
  | idle
  | calling (cmd : Protocol)
  | lost (cmd : Protocol)
  | finished
  | sending (cmd : Protocol) (start : Timeval)
  | receiving (cmd : Protocol) (start : Timeval)
  | done (cmd : Protocol) (start : Timeval)
  | locking (cmd : Protocol) (start finish : Timeval)
  | counting

/-- What a worker calls outside of the lock, with the result: `make_connection`, which may fail,
`fetch`, which may return the null pointer, `gettimeofday`, `send_cmd`, whose result is only
logged, and `recv_cmd`. -/
inductive Call where
  | makeConnection (connected : Bool)
  | fetch (cmd : Option Protocol)
  | gettimeofday (tim : Timeval)
  | sendCmd
  | recvCmd (ret : ℤ) (rsp : Protocol)

/-- Where a worker is after a call.  There is no result when the worker does not make this
call. -/
def Worker.call : Worker → Call → Option Worker
  | .starting, .makeConnection connected => some (if connected then .idle else .finished)
  | .idle, .fetch cmd =>
      match cmd with
      | none => some .finished
      | some cmd => some (.calling cmd)
  | .calling cmd, .gettimeofday start => some (.sending cmd start)
  | .sending cmd start, .sendCmd => some (.receiving cmd start)
  | .receiving cmd start, .recvCmd ret rsp =>
      if ret < 1 then some (.lost cmd)
      else if rsp.cmd ≠ .cmdDone then some .idle
      else some (.done cmd start)
  | .lost cmd, .makeConnection connected => some (if connected then .calling cmd else .lost cmd)
  | .done cmd start, .gettimeofday finish => some (.locking cmd start finish)
  | _, _ => none

/-- A request that has been answered with `cmdDone`: its zoom level, and the times before it was
sent and after the answer. -/
structure Completed where
  z : Int32
  start : Timeval
  finish : Timeval

namespace Completed

/-- The time that a request took, in milliseconds. -/
def duration (c : Completed) : ℤ := c.finish.inMilliseconds - c.start.inMilliseconds

/-- The statements that count a request. -/
def statements (c : Completed) : List Statement :=
  SubmitQueue.statements c.z (c.finish.milliseconds - c.start.milliseconds)

end Completed

/-- The requests whose zoom level has the place `z`. -/
def atZoom (cs : List Completed) (z : Fin (maxZoom + 1)) : List Completed :=
  cs.filter fun c => c.z.toInt = (z.val : ℤ)

/-- The workers, the statistics with their lock, and the requests that have been completed, in the
order in which the workers got the lock for them. -/
structure Workers where
  threads : ℕ → Worker
  stats : Guarded ℕ Statement Undefined SpeedStats
  completed : List Completed

/-- A step of a worker: a call outside of the lock, the lock, a statement under the lock, or the
unlock. -/
inductive WorkerStep where
  | call (w : ℕ) (c : Call)
  | lock (w : ℕ)
  | exec (w : ℕ)
  | unlock (w : ℕ)

namespace Workers

/-- The statistics before the first request. -/
def noStats : SpeedStats := fun _ => ⟨0, 0, 0, 0⟩

/-- The workers before their first step. -/
def init : Workers where
  threads := fun _ => .starting
  stats := .init noStats
  completed := []

/-- The step of a worker.  There is no result when the worker is not at this point, when it has to
wait for the lock, and after something undefined. -/
def step (s : Workers) (a : WorkerStep) : Option Workers :=
  match s.stats.failure with
  | some _ => none
  | none =>
      match a with
      | .call w c =>
          ((s.threads w).call c).map fun worker =>
            { s with threads := Function.update s.threads w worker }
      | .lock w =>
          match s.threads w with
          | .locking cmd start finish =>
              (s.stats.lock w (Completed.statements ⟨cmd.z, start, finish⟩)).map fun stats =>
                { threads := Function.update s.threads w .counting
                  stats := stats
                  completed := s.completed ++ [⟨cmd.z, start, finish⟩] }
          | _ => none
      | .exec w =>
          match s.threads w with
          | .counting =>
              (s.stats.next SubmitQueue.exec w).map fun stats => { s with stats := stats }
          | _ => none
      | .unlock w =>
          match s.threads w with
          | .counting =>
              (s.stats.unlock w).map fun stats =>
                { s with threads := Function.update s.threads w .idle, stats := stats }
          | _ => none

/-- The times that the completed requests of a zoom level took. -/
def durations (s : Workers) (z : Fin (maxZoom + 1)) : List ℤ :=
  (atZoom s.completed z).map Completed.duration

end Workers

/-! ### One request -/

theorem intResult_eq_ok {n : ℤ} {m : Int32} (h : intResult n = .ok m) :
  m.toInt = n
  := by
  unfold intResult at h
  split_ifs at h with hn
  obtain rfl := Except.ok.inj h
  exact Int32.toInt_ofInt_of_le hn.1 hn.2

theorem timeResult_eq_ok {n : ℤ} {t : Int64} (h : timeResult n = .ok t) :
  t.toInt = n
  := by
  unfold timeResult at h
  split_ifs at h with hn
  obtain rfl := Except.ok.inj h
  exact Int64.toInt_ofInt_of_le hn.1 hn.2

theorem zoomIndex_eq_some {z : Int32} {i : Fin (maxZoom + 1)} :
  zoomIndex z = some i ↔ z.toInt = (i.val : ℤ)
  := by
  have hi := i.isLt
  unfold zoomIndex
  split_ifs with hz
  · rw [Option.some.injEq, Fin.ext_iff]
    dsimp only
    omega
  · simp only [false_iff]
    omega

theorem isSome_zoomIndex {z : Int32} :
  (zoomIndex z).isSome ↔ 0 ≤ z.toInt ∧ z.toInt ≤ maxZoom
  := by
  unfold zoomIndex
  split_ifs with hz
  · exact iff_of_true rfl hz
  · exact iff_of_false Bool.false_ne_true hz

variable {stat stat' : SpeedStat} {c : Completed} {z : Int32} {t1 : Int64}

/-- The statements for a request fail only at the first two of them. -/
theorem foldlM_statements :
  (statements z t1).foldlM SpeedStat.exec stat =
    match intResult (stat.noRendered.toInt + 1), timeResult (stat.timeTotal.toInt + t1.toInt) with
    | .ok n, .ok total =>
        .ok
          { timeMin := if stat.timeMin > t1 ∨ stat.timeMin = 0 then t1 else stat.timeMin
            timeMax := if stat.timeMax < t1 then t1 else stat.timeMax
            timeTotal := total
            noRendered := n }
    | .error e, _ => .error e
    | .ok _, .error e => .error e
  := by
  rw [statements, Loop.foldlM_cons_eq, SpeedStat.exec]
  cases intResult (stat.noRendered.toInt + 1) with
  | error e => rfl
  | ok n =>
      dsimp only [Except.map]
      rw [Loop.foldlM_cons_eq, SpeedStat.exec]
      cases timeResult (stat.timeTotal.toInt + t1.toInt) with
      | error e => rfl
      | ok total => rfl

/-- The statistics of a zoom level after a request. -/
theorem of_foldlM_statements (h : c.statements.foldlM SpeedStat.exec stat = .ok stat') :
  stat'.noRendered.toInt = stat.noRendered.toInt + 1 ∧
    stat'.timeTotal.toInt = stat.timeTotal.toInt + c.duration ∧
    stat'.timeMin.toInt =
      (if c.duration < stat.timeMin.toInt ∨ stat.timeMin.toInt = 0 then c.duration
        else stat.timeMin.toInt) ∧
    stat'.timeMax.toInt =
      (if stat.timeMax.toInt < c.duration then c.duration else stat.timeMax.toInt)
  := by
  have hduration : (c.finish.milliseconds - c.start.milliseconds).toInt = c.duration :=
    Timeval.toInt_milliseconds_sub c.start c.finish
  have hzero : stat.timeMin = 0 ↔ stat.timeMin.toInt = 0 := Int64.toInt_inj.symm
  rw [Completed.statements, foldlM_statements] at h
  split at h
  · rename_i n total hn htotal
    obtain rfl := Except.ok.inj h
    use intResult_eq_ok hn
    constructor
    · rw [← hduration]
      exact timeResult_eq_ok htotal
    · simp only [gt_iff_lt, apply_ite Int64.toInt, Int64.lt_iff_toInt_lt, hduration, hzero]
      exact ⟨trivial, trivial⟩
  · cases h
  · cases h

/-- A request is counted when the results fit. -/
theorem exists_foldlM_statements (hcount : stat.noRendered.toInt + 1 < 2 ^ 31)
    (htotal : 0 ≤ stat.timeTotal.toInt + c.duration)
    (htotalLt : stat.timeTotal.toInt + c.duration < 2 ^ 63) :
  ∃ stat', c.statements.foldlM SpeedStat.exec stat = .ok stat'
  := by
  have hduration : (c.finish.milliseconds - c.start.milliseconds).toInt = c.duration :=
    Timeval.toInt_milliseconds_sub c.start c.finish
  have hle := stat.noRendered.le_toInt
  rw [Completed.statements, foldlM_statements, hduration, intResult, if_pos (by omega), timeResult,
    if_pos (by omega)]
  exact ⟨_, rfl⟩

/-! ### The requests of a zoom level -/

/-- What the statistics of a zoom level say about requests that took the times `ds`.  The smallest
time is only one of the times, and zero exactly when the last one is zero. -/
structure Counts (stat : SpeedStat) (ds : List ℤ) : Prop where
  noRendered : stat.noRendered.toInt = ds.length
  timeTotal : stat.timeTotal.toInt = ds.sum
  timeMax_mem : ds = [] ∧ stat.timeMax.toInt = 0 ∨ stat.timeMax.toInt ∈ ds
  le_timeMax : ∀ d ∈ ds, d ≤ stat.timeMax.toInt
  timeMin_mem : ds = [] ∧ stat.timeMin.toInt = 0 ∨ stat.timeMin.toInt ∈ ds
  timeMin_eq_zero : stat.timeMin.toInt = 0 ↔ ds = [] ∨ ds.getLast? = some 0
  timeMin_le : 0 ∉ ds → ∀ d ∈ ds, stat.timeMin.toInt ≤ d

namespace Counts

variable {ds : List ℤ}

theorem nil :
  Counts ⟨0, 0, 0, 0⟩ []
  := by
  constructor <;> simp

/-- The statistics after one more request. -/
theorem concat (h : Counts stat ds) (hd : ∀ d ∈ ds, 0 ≤ d) (hc : 0 ≤ c.duration)
    (hcount : c.statements.foldlM SpeedStat.exec stat = .ok stat') :
  Counts stat' (ds ++ [c.duration])
  := by
  obtain ⟨hn, htotal, hmin, hmax⟩ := of_foldlM_statements hcount
  have hmem : c.duration ∈ ds ++ [c.duration] := List.mem_append_right _ (List.mem_singleton_self _)
  constructor
  case noRendered =>
    rw [hn, h.noRendered, List.length_append]
    rfl
  case timeTotal => rw [htotal, h.timeTotal, List.sum_append, List.sum_singleton]
  case timeMax_mem =>
    right
    rw [hmax]
    split_ifs with hlt
    · exact hmem
    · rcases h.timeMax_mem with ⟨-, hzero⟩ | hold
      · have heq : stat.timeMax.toInt = c.duration := by omega
        rw [heq]
        exact hmem
      · exact List.mem_append_left _ hold
  case le_timeMax =>
    rw [List.forall_mem_append, List.forall_mem_singleton, hmax]
    constructor
    · intro d hd
      have hle := h.le_timeMax d hd
      split_ifs <;> omega
    · split_ifs <;> omega
  case timeMin_mem =>
    right
    rw [hmin]
    split_ifs with hcase
    · exact hmem
    · rcases h.timeMin_mem with ⟨-, hzero⟩ | hold
      · exact absurd (Or.inr hzero) hcase
      · exact List.mem_append_left _ hold
  case timeMin_eq_zero =>
    rw [List.getLast?_concat, Option.some.injEq, hmin]
    split_ifs with hcase
    · simp
    · -- a smallest time that stays is positive, and the new time is not below it
      rcases h.timeMin_mem with ⟨-, hzero⟩ | hold
      · exact absurd (Or.inr hzero) hcase
      · have hnonneg := hd _ hold
        have hpos : stat.timeMin.toInt ≠ 0 ∧ c.duration ≠ 0 := by omega
        simp [hpos.1, hpos.2]
  case timeMin_le =>
    intro hzero
    rw [List.mem_append, not_or] at hzero
    rw [List.forall_mem_append, List.forall_mem_singleton, hmin]
    constructor
    · intro d hd
      have hle := h.timeMin_le hzero.1 d hd
      have hne : stat.timeMin.toInt ≠ 0 := by
        intro hmin
        rcases h.timeMin_eq_zero.mp hmin with rfl | hlast
        · cases hd
        · exact hzero.1 (List.mem_of_getLast? hlast)
      split_ifs <;> omega
    · split_ifs <;> omega

/-- The greatest time is right. -/
theorem isGreatest (h : Counts stat ds) (hne : ds ≠ []) :
  IsGreatest {d | d ∈ ds} stat.timeMax.toInt
  := by
  rcases h.timeMax_mem with ⟨hnil, -⟩ | hmem
  · exact absurd hnil hne
  · exact ⟨hmem, h.le_timeMax⟩

/-- The smallest time is right exactly when zero, if it is among the times, is the last one. -/
theorem isLeast_iff (h : Counts stat ds) (hd : ∀ d ∈ ds, 0 ≤ d) (hne : ds ≠ []) :
  IsLeast {d | d ∈ ds} stat.timeMin.toInt ↔ (0 ∈ ds → ds.getLast? = some 0)
  := by
  constructor
  · intro hleast hzero
    have hnonneg := hd _ hleast.1
    have hle : stat.timeMin.toInt ≤ 0 := hleast.2 hzero
    exact (h.timeMin_eq_zero.mp (le_antisymm hle hnonneg)).resolve_left hne
  · intro hlast
    by_cases hzero : 0 ∈ ds
    · have hmin := h.timeMin_eq_zero.mpr (Or.inr (hlast hzero))
      rw [hmin]
      exact ⟨hzero, hd⟩
    · rcases h.timeMin_mem with ⟨hnil, -⟩ | hmem
      · exact absurd hnil hne
      · exact ⟨hmem, h.timeMin_le hzero⟩

end Counts

/-- The requests of a zoom level, counted one after another. -/
def countAll (cs : List Completed) : Except Undefined SpeedStat :=
  cs.foldlM (fun stat c => c.statements.foldlM SpeedStat.exec stat) ⟨0, 0, 0, 0⟩

variable {cs : List Completed}

/-- When requests have been counted, the statistics are about their times. -/
theorem counts_of_countAll (h : countAll cs = .ok stat) (hd : ∀ c ∈ cs, 0 ≤ c.duration) :
  Counts stat (cs.map Completed.duration)
  := by
  revert hd
  apply Loop.foldlM_invariant
    (P := fun done stat => (∀ c ∈ done, 0 ≤ c.duration) → Counts stat (done.map _)) h
  · intro _
    exact Counts.nil
  · intro done c stat stat' hdone hcount hd
    rw [List.forall_mem_append, List.forall_mem_singleton] at hd
    rw [List.map_append, List.map_singleton]
    apply (hdone hd.1).concat _ hd.2 hcount
    exact List.forall_mem_map.mpr hd.1

/-- Requests can be counted exactly when their number and the sum of their times fit. -/
theorem exists_countAll_iff (hd : ∀ c ∈ cs, 0 ≤ c.duration) :
  (∃ stat, countAll cs = .ok stat) ↔
    (cs.map Completed.duration).length < 2 ^ 31 ∧ (cs.map Completed.duration).sum < 2 ^ 63
  := by
  constructor
  · rintro ⟨stat, h⟩
    have hcounts := counts_of_countAll h hd
    have hn := stat.noRendered.toInt_lt
    have htotal := stat.timeTotal.toInt_lt
    rw [hcounts.noRendered] at hn
    rw [hcounts.timeTotal] at htotal
    exact ⟨by exact_mod_cast hn, htotal⟩
  · induction cs using List.reverseRecOn with
    | nil =>
        intro _
        exact ⟨_, rfl⟩
    | append_singleton cs c ih =>
        rw [List.forall_mem_append, List.forall_mem_singleton] at hd
        rw [List.map_append, List.map_singleton, List.length_append, List.sum_append,
          List.sum_singleton, List.length_singleton]
        rintro ⟨hlength, hsum⟩
        obtain ⟨stat, hstat⟩ := ih hd.1 ⟨by omega, by omega⟩
        have hcounts := counts_of_countAll hstat hd.1
        have hnonneg : 0 ≤ (cs.map Completed.duration).sum :=
          List.sum_nonneg (List.forall_mem_map.mpr hd.1)
        obtain ⟨stat', hstat'⟩ : ∃ stat', c.statements.foldlM SpeedStat.exec stat = .ok stat' := by
          apply exists_foldlM_statements
          · rw [hcounts.noRendered]
            omega
          · rw [hcounts.timeTotal]
            omega
          · rw [hcounts.timeTotal]
            exact hsum
        exact ⟨stat', (Loop.foldlM_concat hstat c).trans hstat'⟩

/-! ### Runs -/

/-- The statements for a zoom level are those for its requests. -/
theorem filter_statements (cs : List Completed) (z : Fin (maxZoom + 1)) :
  ((cs.flatMap Completed.statements).filter fun k => zoomIndex k.z = some z) =
    (atZoom cs z).flatMap Completed.statements
  := by
  induction cs with
  | nil => rfl
  | cons c cs ih =>
      rw [List.flatMap_cons, List.filter_append, ih]
      by_cases hz : c.z.toInt = (z.val : ℤ)
      · have hall : (c.statements.filter fun k => zoomIndex k.z = some z) = c.statements := by
          apply List.filter_eq_self.mpr
          simp [Completed.statements, statements, zoomIndex_eq_some, hz]
        have hcons : atZoom (c :: cs) z = c :: atZoom cs z :=
          List.filter_cons_of_pos (by simpa using hz)
        rw [hall, hcons, List.flatMap_cons]
      · have hnone : (c.statements.filter fun k => zoomIndex k.z = some z) = [] := by
          apply List.filter_eq_nil_iff.mpr
          simp [Completed.statements, statements, zoomIndex_eq_some, hz]
        have hcons : atZoom (c :: cs) z = atZoom cs z :=
          List.filter_cons_of_neg (by simpa using hz)
        rw [hnone, hcons, List.nil_append]

/-- Requests are counted when every one has a place in the statistics and those of each zoom level
can be counted. -/
theorem foldlM_exec_iff {stats : SpeedStats} :
  (cs.flatMap Completed.statements).foldlM exec Workers.noStats = .ok stats ↔
    (∀ c ∈ cs, 0 ≤ c.z.toInt ∧ c.z.toInt ≤ maxZoom) ∧
      ∀ z, countAll (atZoom cs z) = .ok (stats z)
  := by
  have hplaces : (∀ k ∈ cs.flatMap Completed.statements, (zoomIndex k.z).isSome) ↔
      ∀ c ∈ cs, 0 ≤ c.z.toInt ∧ c.z.toInt ≤ maxZoom := by
    simp only [List.forall_mem_flatMap, Completed.statements, statements, List.forall_mem_cons,
      isSome_zoomIndex]
    simp
  rw [exec, Loop.foldlM_onCell, hplaces]
  simp only [filter_statements, Loop.foldlM_flatMap]
  rfl

namespace Workers

variable {s s' : Workers} {a : WorkerStep} {z : Fin (maxZoom + 1)}

/-- The critical sections are those of the completed requests, and they are executed as if one
after another. -/
structure Serial (s : Workers) : Prop where
  stats : s.stats.Serial exec noStats
  entered : s.stats.entered = s.completed.flatMap Completed.statements

theorem Serial.init :
  Workers.init.Serial
  := by
  constructor
  case stats => exact Guarded.Serial.init
  case entered => rfl

/-- Every step of a worker keeps this. -/
theorem Serial.step (h : s.Serial) (hstep : s.step a = some s') :
  s'.Serial
  := by
  unfold Workers.step at hstep
  split at hstep
  · cases hstep
  cases a with
  | call w c =>
      obtain ⟨worker, -, rfl⟩ := Option.map_eq_some_iff.mp hstep
      exact ⟨h.stats, h.entered⟩
  | lock w =>
      dsimp only at hstep
      split at hstep
      · rename_i cmd start finish hw
        obtain ⟨stats, hlock, rfl⟩ := Option.map_eq_some_iff.mp hstep
        constructor
        case stats => exact h.stats.lock hlock
        case entered =>
          rw [Guarded.entered_lock hlock, h.entered, List.flatMap_append, List.flatMap_singleton]
      · cases hstep
  | exec w =>
      dsimp only at hstep
      split at hstep
      · obtain ⟨stats, hnext, rfl⟩ := Option.map_eq_some_iff.mp hstep
        constructor
        case stats => exact h.stats.next hnext
        case entered => exact (Guarded.entered_next hnext).trans h.entered
      · cases hstep
  | unlock w =>
      dsimp only at hstep
      split at hstep
      · obtain ⟨stats, hunlock, rfl⟩ := Option.map_eq_some_iff.mp hstep
        constructor
        case stats => exact h.stats.unlock hunlock
        case entered => exact (Guarded.entered_unlock hunlock).trans h.entered
      · cases hstep

theorem serial_of_reach (h : Reach step anyStep init s) :
  s.Serial
  := by
  apply h.invariant (I := Serial)
  · exact Serial.init
  · intro s a s' hs _ hstep
    exact hs.step hstep

/-- The statistics of a zoom level for which no statement is left are those of its requests. -/
theorem Serial.countAll_eq (h : s.Serial)
    (hpending : ∀ k ∈ s.stats.pending, k.z.toInt ≠ (z.val : ℤ)) :
  countAll (atZoom s.completed z) = .ok (s.stats.value z)
  := by
  obtain ⟨done, hentered, hdone⟩ := h.stats.value
  have hnone : (s.stats.pending.filter fun k => zoomIndex k.z = some z) = [] := by
    apply List.filter_eq_nil_iff.mpr
    intro k hk
    rw [decide_eq_true_eq, zoomIndex_eq_some]
    exact hpending k hk
  have hfilter : (done.filter fun k => zoomIndex k.z = some z) =
      (atZoom s.completed z).flatMap Completed.statements := by
    rw [← filter_statements, ← h.entered, hentered, List.filter_append, hnone, List.append_nil]
  have hz := (Loop.foldlM_onCell.mp hdone).2 z
  rw [hfilter, Loop.foldlM_flatMap] at hz
  exact hz

theorem forall_durations {s : Workers} {z : Fin (maxZoom + 1)} :
  (∀ d ∈ s.durations z, 0 ≤ d) ↔ ∀ c ∈ atZoom s.completed z, 0 ≤ c.duration
  := List.forall_mem_map

/-- The requests that have been completed can be counted exactly when every zoom level has a place
in the statistics and the numbers fit. -/
theorem exists_foldlM_exec_iff (hd : ∀ c ∈ s.completed, 0 ≤ c.duration) :
  (∃ stats, (s.completed.flatMap Completed.statements).foldlM exec noStats = .ok stats) ↔
    (∀ c ∈ s.completed, 0 ≤ c.z.toInt ∧ c.z.toInt ≤ maxZoom) ∧
      ∀ z, (s.durations z).length < 2 ^ 31 ∧ (s.durations z).sum < 2 ^ 63
  := by
  have hd : ∀ z, ∀ c ∈ atZoom s.completed z, 0 ≤ c.duration := by
    intro z c hc
    exact hd c (List.mem_of_mem_filter hc)
  simp only [foldlM_exec_iff, exists_and_left, durations, ← exists_countAll_iff (hd _)]
  rw [Classical.skolem]

/-- In every run, something undefined happens exactly when a request has been completed whose zoom
level has no place in the statistics, or when the number of the requests of a zoom level or the
sum of their times does not fit.  As long as nothing undefined has happened, the statistics of
every zoom level for which no statement is left tell the number of its completed requests, the sum
of their times and the greatest one.  They tell the smallest one exactly when zero, if it is among
the times, is also the last of them. -/
theorem statistics_counted (h : Reach step anyStep init s) :
  ((∀ c ∈ s.completed, 0 ≤ c.duration) → (s.stats.failure ≠ none ∨ s.stats.pending = []) →
    (s.stats.failure = none ↔
      (∀ c ∈ s.completed, 0 ≤ c.z.toInt ∧ c.z.toInt ≤ maxZoom) ∧
        ∀ z, (s.durations z).length < 2 ^ 31 ∧ (s.durations z).sum < 2 ^ 63)) ∧
    (s.stats.failure = none → ∀ z, (∀ d ∈ s.durations z, 0 ≤ d) →
      (∀ k ∈ s.stats.pending, k.z.toInt ≠ (z.val : ℤ)) →
      (s.stats.value z).noRendered.toInt = (s.durations z).length ∧
        (s.stats.value z).timeTotal.toInt = (s.durations z).sum ∧
        (s.durations z ≠ [] →
          IsGreatest {d | d ∈ s.durations z} (s.stats.value z).timeMax.toInt ∧
            (IsLeast {d | d ∈ s.durations z} (s.stats.value z).timeMin.toInt ↔
              (0 ∈ s.durations z → (s.durations z).getLast? = some 0))))
  := by
  have hserial := serial_of_reach h
  constructor
  · intro hd hrest
    rw [← exists_foldlM_exec_iff hd, ← hserial.entered]
    constructor
    · intro hnone
      exact ⟨_, hserial.stats.foldlM_entered (hrest.resolve_left (not_not.mpr hnone))⟩
    · rintro ⟨stats, hstats⟩
      apply Option.eq_none_iff_forall_ne_some.mpr
      intro e he
      rw [hserial.stats.foldlM_entered_of_failure he] at hstats
      cases hstats
  · intro _ z hd hpending
    have hcounts := counts_of_countAll (hserial.countAll_eq hpending) (forall_durations.mp hd)
    use hcounts.noRendered, hcounts.timeTotal
    intro hne
    exact ⟨hcounts.isGreatest hne, hcounts.isLeast_iff hd hne⟩

/-! ### Sample runs -/

theorem toInt_sampleUsec (ms : Fin 10) :
  (Int64.ofNat (1000 * ms)).toInt = 1000 * (ms.val : ℤ)
  := by
  rw [Int64.toInt_ofNat_of_lt]
  · apply Int.natCast_mul
  · omega

theorem sampleUsec_nonneg (ms : Fin 10) :
  0 ≤ (Int64.ofNat (1000 * ms)).toInt
  := by
  rw [toInt_sampleUsec]
  omega

theorem sampleUsec_lt (ms : Fin 10) :
  (Int64.ofNat (1000 * ms)).toInt < 1000000
  := by
  rw [toInt_sampleUsec]
  omega

theorem sampleUsec_fits (ms : Fin 10) :
  (0 : Int64).toInt * 1000 + (Int64.ofNat (1000 * ms)).toInt / 1000 < 2 ^ 63
  := by
  rw [toInt_sampleUsec, Int64.toInt_zero]
  omega

/-- A few milliseconds after the epoch. -/
def sampleTime (ms : Fin 10) : Timeval where
  tvSec := 0
  tvUsec := Int64.ofNat (1000 * ms)
  tvSec_nonneg := le_rfl
  tvUsec_nonneg := sampleUsec_nonneg ms
  tvUsec_lt := sampleUsec_lt ms
  fits := sampleUsec_fits ms

/-- A request or an answer for a tile of zoom level 5. -/
def sampleProtocol (cmd : ProtoCmd) : Protocol where
  ver := 2
  cmd := cmd
  x := 0
  y := 0
  z := 5
  xmlname := .replicate _ 0
  mimetype := .replicate _ 0
  options := .replicate _ 0

/-- A worker fetches and sends a command. -/
def sampleSend (w : ℕ) (start : Fin 10) : List WorkerStep :=
  [.call w (.fetch (some (sampleProtocol .cmdRenderBulk))),
    .call w (.gettimeofday (sampleTime start)), .call w .sendCmd]

/-- A worker gets the answer. -/
def sampleReceive (w : ℕ) (finish : Fin 10) : List WorkerStep :=
  [.call w (.recvCmd 64 (sampleProtocol .cmdDone)), .call w (.gettimeofday (sampleTime finish))]

/-- A worker counts the request. -/
def sampleCount (w : ℕ) : List WorkerStep :=
  [.lock w, .exec w, .exec w, .exec w, .exec w, .unlock w]

/-- Two workers connect. -/
def sampleConnect : List WorkerStep :=
  [.call 0 (.makeConnection true), .call 1 (.makeConnection true)]

/-- Two workers run at the same time, and the one whose request took no time is the second to
get the lock. -/
theorem statistics_counted_sample :
  ∃ s, run step (fun _ _ => true) init
      (sampleConnect ++ sampleSend 0 1 ++ sampleSend 1 8 ++ sampleReceive 0 8 ++
        sampleReceive 1 8 ++ sampleCount 0 ++ sampleCount 1) = some s ∧
    s.durations 5 = [7, 0] ∧ s.stats.failure = none ∧
    IsGreatest {d | d ∈ s.durations 5} (s.stats.value 5).timeMax.toInt ∧
    IsLeast {d | d ∈ s.durations 5} (s.stats.value 5).timeMin.toInt
  := by
  have hrun : (run step (fun _ _ => true) init
      (sampleConnect ++ sampleSend 0 1 ++ sampleSend 1 8 ++ sampleReceive 0 8 ++
        sampleReceive 1 8 ++ sampleCount 0 ++ sampleCount 1)).map
      (fun s => (s.durations 5, s.stats.failure, s.stats.pending.isEmpty)) =
        some ([7, 0], none, true) := by
    decide +kernel
  obtain ⟨s, hs, hmap⟩ := Option.map_eq_some_iff.mp hrun
  obtain ⟨hdurations, hmap⟩ := Prod.mk.inj hmap
  obtain ⟨hfailure, hpending⟩ := Prod.mk.inj hmap
  have hstats := (statistics_counted (reach_of_run hs fun _ _ _ => trivial)).2 hfailure 5
  rw [List.isEmpty_iff.mp hpending, hdurations] at hstats
  obtain ⟨-, -, htimes⟩ := hstats (by decide) nofun
  obtain ⟨hgreatest, hleast⟩ := htimes (by decide)
  rw [← hdurations] at hgreatest hleast
  exact ⟨s, hs, hdurations, hfailure, hgreatest, hleast.mpr fun _ => by rw [hdurations]; rfl⟩

/-- A request that took no time is followed by one that took five milliseconds.  The first one is
forgotten: the smallest time is five milliseconds. -/
theorem statistics_minimum_forgotten :
  ∃ s, run step (fun _ _ => true) init
      (sampleConnect ++ sampleSend 0 2 ++ sampleReceive 0 2 ++ sampleCount 0 ++ sampleSend 0 3 ++
        sampleReceive 0 8 ++ sampleCount 0) = some s ∧
    s.stats.failure = none ∧ s.stats.pending = [] ∧ s.durations 5 = [0, 5] ∧
    (s.stats.value 5).timeMin.toInt = 5 ∧
    ¬ IsLeast {d | d ∈ s.durations 5} (s.stats.value 5).timeMin.toInt
  := by
  have hrun : (run step (fun _ _ => true) init
      (sampleConnect ++ sampleSend 0 2 ++ sampleReceive 0 2 ++ sampleCount 0 ++ sampleSend 0 3 ++
        sampleReceive 0 8 ++ sampleCount 0)).map
      (fun s => (s.stats.failure, s.stats.pending.isEmpty, s.durations 5,
        (s.stats.value 5).timeMin.toInt)) = some (none, true, [0, 5], 5) := by
    decide +kernel
  obtain ⟨s, hs, hmap⟩ := Option.map_eq_some_iff.mp hrun
  obtain ⟨hfailure, hmap⟩ := Prod.mk.inj hmap
  obtain ⟨hpending, hmap⟩ := Prod.mk.inj hmap
  obtain ⟨hdurations, hmin⟩ := Prod.mk.inj hmap
  refine ⟨s, hs, hfailure, List.isEmpty_iff.mp hpending, hdurations, hmin, ?_⟩
  rw [hdurations, hmin]
  intro hleast
  have hle : (5 : ℤ) ≤ 0 := hleast.2 List.mem_cons_self
  omega

end Workers

end SubmitQueue
