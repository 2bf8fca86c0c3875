import ModTile.SubmitProgram.Termination
import Mathlib.Data.List.Perm.Basic

/-!
# What a submitting program has done at its end

When `finish_workers` has returned, every tile that the main thread has enqueued has got one answer
to the command for it, however often connections were lost on the way, provided that a worker got
a connection at all.  If none did, the tiles are still in the queue.  The statistics that the
program prints count the tiles of every zoom level that were answered with `cmdDone`.
-/

open Transition

namespace SubmitQueue

/-- The tiles that calls of the main thread enqueue. -/
def MainCall.items : List MainCall → List QItem
  | [] => []
  | .enqueue item :: calls => item :: items calls
  | .waitForEmptyQueue :: calls => items calls

/-- The tiles that the main thread is still going to append. -/
def MainThread.items (queue : Submit) : MainThread → List QItem
  | .next calls => MainCall.items calls
  | .locking (.append e) calls => queue.item e :: MainCall.items calls
  | .waiting (.append e) calls => queue.item e :: MainCall.items calls
  | .locking .waitForEmptyQueue calls => MainCall.items calls
  | .waiting .waitForEmptyQueue calls => MainCall.items calls
  | _ => []

theorem MainThread.items_signal (queue : Submit) (main : MainThread) :
  main.signal.items queue = main.items queue
  := by
  rcases main with _ | _ | ⟨_ | _ | _, _⟩ | _ | _ | _ <;> rfl

/-- The command of a worker that has been told that the tile is done, and has not counted it. -/
def Worker.doneCommand? : Worker → Option Protocol
  | .done cmd _ => some cmd
  | .locking cmd _ _ => some cmd
  | _ => none

theorem Worker.doneCommand?_call {worker worker' : Worker} {c : Call} (hc : c.IsOther)
    (h : worker.call c = some worker') :
  worker'.doneCommand? = worker.doneCommand?
  := by
  cases c with
  | fetch cmd => cases hc
  | recvCmd ret rsp => cases hc
  | makeConnection connected =>
      cases worker <;> cases connected <;> cases h
      all_goals rfl
  | gettimeofday tim =>
      cases worker <;> cases h
      all_goals rfl
  | sendCmd =>
      cases worker <;> cases h
      rfl

/-- The number of the requests of a zoom level is the counter in its statistics. -/
theorem noRendered_of_countAll {cs : List Completed} {stat : SpeedStat}
    (h : countAll cs = .ok stat) :
  stat.noRendered.toInt = cs.length
  := by
  apply Loop.foldlM_invariant
    (P := fun done stat => stat.noRendered.toInt = (List.length done : ℤ)) h
  · rfl
  · intro done c stat stat' hdone hcount
    rw [(of_foldlM_statements hcount).1, hdone, List.length_append]
    rfl

namespace Program

variable {n : ℕ} {s t : Program} {a : ProgramStep} {w : ℕ} {l : List ℕ}

/-! ### The tiles -/

/-- The tiles that the main thread has appended, and those that it is going to append. -/
def items (s : Program) : List QItem := s.queue.enqueued ++ s.main.items s.queue

theorem items_step (hstep : Step n s a t) :
  t.items = s.items
  := by
  cases hstep with
  | malloc hmain hfree =>
      rename_i item calls e
      have hitem : (s.queue.allocate item e).item e = item := by
        rw [Submit.item, Submit.allocate]
        dsimp only
        rw [Function.update_self]
      simp only [items, hmain, MainThread.items, MainCall.items, hitem]
      rfl
  | append hmain howner hfull hsignal =>
      rename_i u e calls notEmpty
      simp only [items, hmain, MainThread.items, Submit.appendNode, List.append_assoc]
      rfl
  | take hw hthread htask hresult =>
      simp only [items, MainThread.items_signal]
      rfl
  | wakeMain hmain =>
      have hitems := MainThread.items_signal s.queue s.main
      rw [hmain] at hitems
      simp only [items, hmain]
      rw [← hitems]
      rfl
  | _ => first | rfl | simp only [items, ‹s.main = _›, MainThread.items, MainCall.items]

variable {calls : List MainCall} {heap : ℕ → Node}

theorem items_of_reach (h : Reach (Program.step n) anyStep (init n calls heap) s) :
  s.items = MainCall.items calls
  := by
  apply h.invariant (I := fun s => s.items = MainCall.items calls)
  · rfl
  · intro s a t hs _ hstep
    rw [items_step (Step.of_step hstep), hs]

/-! ### The connections and the answers -/

/-- A worker between its first connection and its end has had a connection, and only such workers
take tiles.  Every answer is one to the command for its tile. -/
structure Served (n : ℕ) (s : Program) : Prop where
  connected : ∀ w, s.workers.threads w ≠ .starting → s.workers.threads w ≠ .finished →
    s.connected w = true
  taken : s.queue.fetched ≠ [] → ∃ w < n, s.connected w = true
  answers : ∀ r ∈ s.answers, ∃ item old, s.queue.fetched[r.number]? = some item ∧
    r.cmd = fetchCommand old item

namespace Served

theorem init :
  Served n (Program.init n calls heap)
  := by
  constructor
  case connected => exact fun _ hne => absurd rfl hne
  case taken => exact fun hne => absurd rfl hne
  case answers => exact nofun

theorem connected_step (h : ∀ w, s.workers.threads w ≠ .starting →
      s.workers.threads w ≠ .finished → s.connected w = true) (hstep : Step n s a t) :
  ∀ w, t.workers.threads w ≠ .starting → t.workers.threads w ≠ .finished → t.connected w = true
  := by
  intro w hstarting hfinished
  rcases hstep.follows w with ⟨hthread, hsame⟩ | ⟨hold, -, -, hnot⟩
  · rw [hsame]
    rw [hthread] at hstarting hfinished
    exact h w hstarting hfinished
  · rcases hnot hfinished with hconnected | ⟨hne, hsame⟩
    · exact hconnected
    · rw [hsame]
      exact h w hne hold

/-- A worker that has had a connection stays so. -/
theorem connected_mono (hstep : Step n s a t) (hw : s.connected w = true) :
  t.connected w = true
  := by
  cases hstep with
  | call hw' hc hcall =>
      dsimp only
      split_ifs
      · rw [Function.update_apply]
        split_ifs
        · rfl
        · exact hw
      · exact hw
  | _ => exact hw

theorem taken_step (h : Served n s) (hstep : Step n s a t) :
  t.queue.fetched ≠ [] → ∃ w < n, t.connected w = true
  := by
  have hmono : (∃ w < n, s.connected w = true) → ∃ w < n, t.connected w = true := by
    rintro ⟨w, hw, hconnected⟩
    exact ⟨w, hw, connected_mono hstep hconnected⟩
  intro hne
  apply hmono
  cases hstep with
  | take hw hthread htask hresult =>
      rename_i w e
      exact ⟨w, hw.1, h.connected w (by rw [hthread]; nofun) (by rw [hthread]; nofun)⟩
  | _ => exact h.taken hne

theorem answers_step (h : Served n s) (hplaced : Placed n s) (hstep : Step n s a t) :
  ∀ r ∈ t.answers, ∃ item old, t.queue.fetched[r.number]? = some item ∧
    r.cmd = fetchCommand old item
  := by
  cases hstep with
  | take hw hthread htask hresult =>
      intro r hr
      obtain ⟨item, old, hitem, hcmd⟩ := h.answers r hr
      have hlt := (List.getElem?_eq_some_iff.mp hitem).1
      exact ⟨item, old, (List.getElem?_append_left hlt).trans hitem, hcmd⟩
  | answer hw hthread htask hret =>
      rename_i w ret rsp cmd start number
      rw [List.forall_mem_append, List.forall_mem_singleton]
      refine ⟨h.answers, ?_⟩
      have hfits := hplaced.fits w
      rw [htask, hthread] at hfits
      obtain ⟨item, old, hitem, hcmd⟩ := hfits
      exact ⟨item, old, hitem, Option.some.inj hcmd⟩
  | _ => exact h.answers

end Served

theorem served_of_reach (h : Reach (Program.step n) anyStep (init n calls heap) s) :
  Served n s
  := by
  induction h with
  | refl => exact Served.init
  | tail a hreach _ hstep ih =>
      have hstep := Step.of_step hstep
      constructor
      case connected => exact Served.connected_step ih.connected hstep
      case taken => exact ih.taken_step hstep
      case answers => exact ih.answers_step (sound_of_reach hreach).placed hstep

/-! ### The statistics -/

/-- The command is one for a tile of the zoom level `z`. -/
def atLevel (z : Fin (maxZoom + 1)) (cmd : Protocol) : Bool := cmd.z.toInt = (z.val : ℤ)

/-- The number of the answers that say that a tile of the zoom level is done. -/
def noDone (s : Program) (z : Fin (maxZoom + 1)) : ℕ :=
  s.answers.countP fun r => r.rsp.cmd = .cmdDone && atLevel z r.cmd

/-- The number of the workers that have been told so and have not counted it. -/
def noUncounted (n : ℕ) (threads : ℕ → Worker) (z : Fin (maxZoom + 1)) : ℕ :=
  ∑ w ∈ Finset.range n, ((threads w).doneCommand?.any (atLevel z)).toNat

variable {z : Fin (maxZoom + 1)}

theorem noUncounted_update {threads : ℕ → Worker} {worker : Worker} (hw : w < n) :
  noUncounted n (Function.update threads w worker) z +
      ((threads w).doneCommand?.any (atLevel z)).toNat =
    noUncounted n threads z + (worker.doneCommand?.any (atLevel z)).toNat
  := by
  have hsum := CondVar.sum_range_of_ne
    (f := fun w => ((threads w).doneCommand?.any (atLevel z)).toNat)
    (g := fun x => ((Function.update threads w worker x).doneCommand?.any (atLevel z)).toNat) hw
    fun x hx => by rw [Function.update_of_ne hx]
  rw [Function.update_self] at hsum
  exact hsum

/-- The number of the completed requests of a zoom level after one more. -/
theorem length_atZoom_concat {cs : List Completed} {cmd : Protocol} {start finish : Timeval} :
  (atZoom (cs ++ [⟨cmd.z, start, finish⟩]) z).length =
    (atZoom cs z).length + (atLevel z cmd).toNat
  := by
  rw [atZoom, List.filter_append, List.length_append, List.filter_singleton]
  congr 1
  by_cases hz : cmd.z.toInt = (z.val : ℤ) <;> simp [hz, atLevel]

/-- Every tile that is done is counted once. -/
def Counted (n : ℕ) (s : Program) : Prop :=
  ∀ z, (atZoom s.workers.completed z).length + noUncounted n s.workers.threads z = s.noDone z

theorem Counted.init :
  Counted n (Program.init n calls heap)
  := by
  intro z
  simp [Program.init, Workers.init, atZoom, noUncounted, noDone, Worker.doneCommand?]

/-- A worker gets to another point without being told that a tile is done. -/
theorem Counted.worker {worker : Worker} (h : Counted n s)
    (hthreads : t.workers.threads = Function.update s.workers.threads w worker)
    (hcompleted : t.workers.completed = s.workers.completed) (hanswers : t.answers = s.answers)
    (hw : w < n) (hsame : worker.doneCommand? = (s.workers.threads w).doneCommand?) :
  Counted n t
  := by
  intro z
  have hupdate : noUncounted n (Function.update s.workers.threads w worker) z + _ = _ :=
    noUncounted_update hw
  rw [hsame] at hupdate
  rw [hcompleted, hthreads, Nat.add_right_cancel hupdate, noDone, hanswers]
  exact h z

/-- An answer makes a tile that has to be counted. -/
theorem Counted.answer {rsp cmd : Protocol} {start : Timeval} {number : ℕ} (h : Counted n s)
    (hw : w < n) (hthread : s.workers.threads w = .receiving cmd start) :
  Counted n
    { s with
      workers := s.workers.put w (if rsp.cmd ≠ .cmdDone then .idle else .done cmd start)
      tasks := Function.update s.tasks w .nothing
      answers := s.answers ++ [⟨number, cmd, rsp⟩] }
  := by
  intro z
  have hz := h z
  have hupdate : noUncounted n (Function.update s.workers.threads w
      (if rsp.cmd ≠ .cmdDone then .idle else .done cmd start)) z + _ = _ := noUncounted_update hw
  rw [hthread] at hupdate
  simp only [noDone, Workers.put, List.countP_append, List.countP_singleton] at hz ⊢
  by_cases hdone : rsp.cmd = .cmdDone
  · rw [if_neg (not_not.mpr hdone)] at hupdate ⊢
    cases hlevel : atLevel z cmd <;> simp [Worker.doneCommand?, hdone, hlevel] at hupdate ⊢ <;>
      omega
  · rw [if_pos hdone] at hupdate ⊢
    simp [Worker.doneCommand?, hdone] at hupdate ⊢
    omega

/-- A worker that has the lock counts its tile. -/
theorem Counted.lock {cmd : Protocol} {start finish : Timeval}
    {stats : Guarded ℕ Statement Undefined SpeedStats} (h : Counted n s) (hw : w < n)
    (hthread : s.workers.threads w = .locking cmd start finish) :
  Counted n
    { s with
      workers :=
        { threads := Function.update s.workers.threads w .counting
          stats := stats
          completed := s.workers.completed ++ [⟨cmd.z, start, finish⟩] } }
  := by
  intro z
  have hz : _ = s.noDone z := h z
  have hupdate : noUncounted n (Function.update s.workers.threads w .counting) z + _ = _ :=
    noUncounted_update hw
  rw [hthread] at hupdate
  simp only [Worker.doneCommand?, Option.any_some, Option.any_none, Bool.toNat_false] at hupdate
  simp only [length_atZoom_concat, noDone] at hz ⊢
  omega

theorem Counted.step (h : Counted n s) (hplaced : Placed n s) (hstep : Step n s a t) :
  Counted n t
  := by
  cases hstep with
  | null hw hthread htask hresult => exact h.worker rfl rfl rfl hw.1 (by rw [hthread]; rfl)
  | returns htask howner hthread =>
      have hw := hplaced.started _ (by rw [hthread]; nofun)
      exact h.worker rfl rfl rfl hw (by rw [hthread]; rfl)
  | call hw hc hcall => exact h.worker rfl rfl rfl hw (Worker.doneCommand?_call hc hcall)
  | lose hw hthread htask hret => exact h.worker rfl rfl rfl hw (by rw [hthread]; rfl)
  | answer hw hthread htask hret => exact h.answer hw hthread
  | lockStats hw hthread hlock => exact h.lock hw hthread
  | unlockStats hw hthread hunlock => exact h.worker rfl rfl rfl hw (by rw [hthread]; rfl)
  | _ => exact h

theorem counted_of_reach (h : Reach (Program.step n) anyStep (init n calls heap) s) :
  Counted n s
  := by
  induction h with
  | refl => exact Counted.init
  | tail a hreach _ hstep ih =>
      exact ih.step (sound_of_reach hreach).placed (Step.of_step hstep)

/-! ### The end -/

/-- When all workers have ended, all of the tiles that have been taken have an answer. -/
theorem answered_perm (h : Sound n s) (hworkers : ∀ w < n, s.workers.threads w = .finished) :
  s.answered.Perm (List.range s.queue.fetched.length)
  := by
  apply (List.perm_ext_iff_of_nodup h.numbered.answeredOnce List.nodup_range).mpr
  intro k
  rw [List.mem_range]
  constructor
  · exact h.numbered.answered k
  · intro hk
    rcases h.numbered.complete k hk with hmem | ⟨w, hw⟩
    · exact hmem
    · exfalso
      have hfits := h.placed.fits w
      have hthread : s.workers.threads w = .starting ∨ s.workers.threads w = .finished := by
        by_cases hstarting : s.workers.threads w = .starting
        · exact Or.inl hstarting
        · exact Or.inr (hworkers w (h.placed.started w hstarting))
      cases htask : s.tasks w with
      | nothing =>
          rw [htask] at hw
          cases hw
      | node e number =>
          rw [htask] at hfits
          rw [hfits.1] at hthread
          rcases hthread with hthread | hthread <;> cases hthread
      | tile number =>
          rw [htask] at hfits
          obtain ⟨item, old, -, hcommand⟩ := hfits
          rcases hthread with hthread | hthread <;> rw [hthread] at hcommand <;> cases hcommand

/-- When all workers have ended, the statistics are complete. -/
theorem statistics_of_finished (h : Reach (Program.step n) anyStep (init n calls heap) s)
    (hworkers : ∀ w < n, s.workers.threads w = .finished) :
  s.workers.stats.failure = none ∧
    ∀ z, (s.workers.stats.value z).noRendered.toInt = s.noDone z
  := by
  have hsound := sound_of_reach h
  have hserial := Workers.serial_of_reach (reach_workers h)
  have hpending : s.workers.stats.pending = [] := by
    rw [Guarded.pending]
    split
    · rfl
    · rename_i w rest hholder
      have hthread := (hsound.held w).mpr ⟨rest, hholder⟩
      have hw := hsound.placed.started w (by simp [hthread])
      cases hthread.symm.trans (hworkers w hw)
  refine ⟨hserial.stats.failure_eq_none hpending, fun z => ?_⟩
  have hcount := hserial.countAll_eq (z := z) (by simp [hpending])
  have hzero : noUncounted n s.workers.threads z = 0 := by
    apply Finset.sum_eq_zero
    intro w hw
    rw [hworkers w (Finset.mem_range.mp hw)]
    rfl
  rw [noRendered_of_countAll hcount, ← counted_of_reach h z, hzero]
  rfl

/-- When a program has come to its end, its main thread has appended the tiles of all calls of
`enqueue`.  If a worker has had a connection, every tile has exactly one answer, and otherwise no
tile has been taken.  Every answer is one to the command for its tile.  Nothing undefined has
happened, and the statistics of every zoom level tell how many of its tiles are done. -/
theorem all_answered (h : Reach (Program.step n) anyStep (init n calls heap) s)
    (hended : s.main = .ended) :
  s.queue.enqueued = MainCall.items calls ∧
    ((∃ w < n, s.connected w = true) →
      s.answered.Perm (List.range (MainCall.items calls).length)) ∧
    ((∀ w < n, s.connected w = false) → s.queue.fetched = [] ∧ s.answers = []) ∧
    (∀ r ∈ s.answers, ∃ item old, (MainCall.items calls)[r.number]? = some item ∧
      r.cmd = fetchCommand old item) ∧
    s.workers.stats.failure = none ∧
    ∀ z, (s.workers.stats.value z).noRendered.toInt =
      s.answers.countP fun r => r.rsp.cmd = .cmdDone && decide (r.cmd.z.toInt = (z.val : ℤ))
  := by
  have hsound := sound_of_reach h
  have hserved := served_of_reach h
  obtain ⟨l, hqueue⟩ := hsound.queue
  have hworkers : ∀ w < n, s.workers.threads w = .finished := by
    have hjoined := hsound.synced.joined
    rw [hended] at hjoined
    exact hjoined
  have hitems : s.queue.enqueued = MainCall.items calls := by
    have hitems := items_of_reach h
    rw [items, hended] at hitems
    rw [← hitems]
    exact (List.append_nil _).symm
  have htaken : s.queue.fetched <+: MainCall.items calls := by
    rw [← hitems, hqueue.history]
    exact List.prefix_append _ _
  obtain ⟨hfailure, hstats⟩ := statistics_of_finished h hworkers
  refine ⟨hitems, ?_, ?_, ?_, hfailure, hstats⟩
  · rintro ⟨w, hw, hconnected⟩
    obtain ⟨-, hlen⟩ := hsound.synced.finished w (hworkers w hw) hconnected
    have hnil : l = [] := by
      apply List.length_eq_zero_iff.mp
      rw [← hqueue.length, hlen]
      rfl
    have hall : s.queue.fetched = MainCall.items calls := by
      rw [← hitems, hqueue.history, hnil, List.map_nil, List.append_nil]
    rw [← hall]
    exact answered_perm hsound hworkers
  · intro hnone
    have hfetched : s.queue.fetched = [] := by
      by_contra hne
      obtain ⟨w, hw, hconnected⟩ := hserved.taken hne
      rw [hnone w hw] at hconnected
      cases hconnected
    refine ⟨hfetched, ?_⟩
    have hanswered := answered_perm hsound hworkers
    rw [hfetched] at hanswered
    exact List.map_eq_nil_iff.mp hanswered.eq_nil
  · intro r hr
    obtain ⟨item, old, hitem, hcmd⟩ := hserved.answers r hr
    obtain ⟨rest, hrest⟩ := htaken
    refine ⟨item, old, ?_, hcmd⟩
    rw [← hrest, List.getElem?_append_left (List.getElem?_eq_some_iff.mp hitem).1]
    exact hitem

/-- The main thread is at the end. -/
def hasEnded (s : Program) : Bool :=
  match s.main with
  | .ended => true
  | _ => false

/-- The program with one tile has come to its end, and has got the answer. -/
theorem all_answered_sample :
  ∃ s, run (Program.step 1) (fun _ _ => true)
      (init 1 [.enqueue (Submit.sampleTile 3)] fun _ => ⟨Submit.sampleTile 0, none⟩) sampleSteps =
        some s ∧
    s.main = .ended ∧ s.connected 0 = true ∧ s.answered.Perm [0] ∧
    (s.workers.stats.value 5).noRendered.toInt = 1
  := by
  have hrun : (run (Program.step 1) (fun _ _ => true)
      (init 1 [.enqueue (Submit.sampleTile 3)] fun _ => ⟨Submit.sampleTile 0, none⟩)
      sampleSteps).map (fun s => (s.hasEnded, s.connected 0,
        s.answers.countP fun r => r.rsp.cmd = .cmdDone && decide (r.cmd.z.toInt = 5))) =
          some (true, true, 1) := by
    decide +kernel
  obtain ⟨s, hs, hmap⟩ := Option.map_eq_some_iff.mp hrun
  obtain ⟨hend, hmap⟩ := Prod.mk.inj hmap
  obtain ⟨hconnected, hcount⟩ := Prod.mk.inj hmap
  have hended : s.main = .ended := by
    unfold hasEnded at hend
    split at hend
    · assumption
    · cases hend
  obtain ⟨-, hanswered, -, -, -, hstats⟩ :=
    all_answered (reach_of_run hs fun _ _ _ => trivial) hended
  refine ⟨s, hs, hended, hconnected, hanswered ⟨0, Nat.zero_lt_one, hconnected⟩, ?_⟩
  rw [hstats 5]
  exact congrArg _ hcount

end Program

end SubmitQueue
