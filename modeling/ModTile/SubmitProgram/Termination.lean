import ModTile.SubmitProgram.Progress
import Mathlib.Algebra.Order.BigOperators.Group.Finset

/-!
# A submitting program terminates

A potential that every step decreases which is not a disturbance: it counts what is left to do for
the calls that the main thread has not made, for the tiles in the queue and for those that the
workers have.  A disturbance increases it by three at most, so that the length of a run is bounded
by the number of the calls, of the workers and of the disturbances.
-/

open Transition

namespace SubmitQueue

/-- What is left to do for a worker until it is before `fetch` again. -/
def Worker.weight : Worker → ℕ
  | .starting => 2
  | .idle => 1
  | .calling _ => 11
  | .lost _ => 12
  | .finished => 0
  | .sending _ _ => 10
  | .receiving _ _ => 9
  | .done _ _ => 8
  | .locking _ _ _ => 7
  | .counting => 2

/-- What is left to do for a node that a worker has taken. -/
def Task.weight : Task → ℕ
  | .node _ _ => 11
  | _ => 0

/-- What is left to do for the main thread of a program with `n` workers, together with the tiles
that it is going to append. -/
def MainThread.weight (n : ℕ) : MainThread → ℕ
  | .next calls => 17 * calls.length + (2 * n + 4)
  | .locking .finishWorkers _ => 2 * n + 3
  | .locking _ calls => 17 * calls.length + (2 * n + 20)
  | .waiting .finishWorkers _ => 2 * n + 2
  | .waiting _ calls => 17 * calls.length + (2 * n + 19)
  | .broadcasting => 2 * n + 2
  | .joining i => n - i + 1
  | .ended => 0

theorem MainThread.weight_signal {n : ℕ} (main : MainThread) :
  main.signal.weight n ≤ main.weight n + 1
  := by
  rcases main with _ | _ | ⟨_ | _ | _, _⟩ | _ | _ | _
  all_goals simp only [signal, weight]
  all_goals omega

/-- A call decreases what is left to do, and a connection that fails does not increase it. -/
theorem Worker.weight_call {worker worker' : Worker} {c : Call} (hc : c.IsOther)
    (h : worker.call c = some worker') :
  worker'.weight ≤ worker.weight ∧ (c ≠ .makeConnection false → worker'.weight < worker.weight)
  := by
  cases c with
  | fetch cmd => cases hc
  | recvCmd ret rsp => cases hc
  | makeConnection connected =>
      cases worker <;> cases connected <;> cases h
      all_goals simp [weight]
  | gettimeofday tim =>
      cases worker <;> cases h
      all_goals simp [weight]
  | sendCmd =>
      cases worker <;> cases h
      simp [weight]

namespace Program

variable {n : ℕ} {s t : Program} {a : ProgramStep} {w : ℕ} {l : List ℕ}

/-- What is left to do for the workers. -/
def load (n : ℕ) (threads : ℕ → Worker) (tasks : ℕ → Task) : ℕ :=
  ∑ w ∈ Finset.range n, ((threads w).weight + (tasks w).weight)

/-- What is left to do when one worker gets to another point. -/
theorem load_update {threads : ℕ → Worker} {tasks : ℕ → Task} {worker : Worker} {task : Task}
    (hw : w < n) :
  load n (Function.update threads w worker) (Function.update tasks w task) +
      ((threads w).weight + (tasks w).weight) =
    load n threads tasks + (worker.weight + task.weight)
  := by
  have hsum := CondVar.sum_range_of_ne (f := fun w => (threads w).weight + (tasks w).weight)
    (g := fun x => (Function.update threads w worker x).weight +
      (Function.update tasks w task x).weight) hw fun x hx => by
        rw [Function.update_of_ne hx, Function.update_of_ne hx]
  rw [Function.update_self, Function.update_self] at hsum
  exact hsum

theorem load_threads {threads : ℕ → Worker} {tasks : ℕ → Task} {worker : Worker} (hw : w < n) :
  load n (Function.update threads w worker) tasks + (threads w).weight =
    load n threads tasks + worker.weight
  := by
  have hload : load n (Function.update threads w worker) (Function.update tasks w (tasks w)) +
      ((threads w).weight + (tasks w).weight) =
        load n threads tasks + (worker.weight + (tasks w).weight) := load_update hw
  rw [Function.update_eq_self] at hload
  omega

/-- All that is left to do while the program is running. -/
def remaining (n : ℕ) (s : Program) : ℕ :=
  s.main.weight n + 13 * s.queue.qLen.toNat + load n s.workers.threads s.tasks +
    s.workers.stats.pending.length + (n - s.notEmpty.waiting.card)

theorem remaining_call {worker : Worker} {c : Call} {connected : ℕ → Bool} (hw : w < n)
    (hc : c.IsOther) (hcall : (s.workers.threads w).call c = some worker) :
  remaining n { s with workers := s.workers.put w worker, connected := connected } ≤
      remaining n s ∧
    (c ≠ .makeConnection false →
      remaining n { s with workers := s.workers.put w worker, connected := connected } <
        remaining n s)
  := by
  obtain ⟨hle, hlt⟩ := Worker.weight_call hc hcall
  have hload : load n (Function.update s.workers.threads w worker) s.tasks + _ = _ :=
    load_threads hw
  simp only [remaining, Workers.put]
  constructor
  · omega
  · intro hne
    have hlt := hlt hne
    omega

/-- A step that is not a disturbance decreases what is left to do, or ends the program. -/
theorem remaining_step (h : Sound n s) (hstep : Step n s a t) :
  remaining n t ≤ remaining n s + 3 ∧
    (a.disturbed = false →
      remaining n t < remaining n s ∨ remaining n t = remaining n s ∧ ¬ t.Running)
  := by
  obtain ⟨l, hqueue⟩ := h.queue
  cases hstep with
  | outOfMemory hmain => exact ⟨Nat.le_add_right _ 3, by simp [ProgramStep.disturbed]⟩
  | malloc hmain hfree =>
      simp only [remaining, hmain, MainThread.weight, List.length_cons, Submit.allocate]
      exact ⟨by omega, fun _ => Or.inl (by omega)⟩
  | callWait hmain =>
      simp only [remaining, hmain, MainThread.weight, List.length_cons]
      exact ⟨by omega, fun _ => Or.inl (by omega)⟩
  | callFinish hmain =>
      simp only [remaining, hmain, MainThread.weight, List.length_nil]
      exact ⟨by omega, fun _ => Or.inl (by omega)⟩
  | full hmain hfull =>
      simp only [remaining, hmain, MainThread.weight]
      exact ⟨by omega, fun _ => Or.inl (by omega)⟩
  | append hmain howner hfull hsignal =>
      have hlen := (hqueue.appendNode howner hfull).length
      have hcard := CondVar.card_waiting_signal hsignal
      rw [List.length_append, ← hqueue.length, List.length_singleton] at hlen
      simp only [remaining, hmain, MainThread.weight, hlen]
      exact ⟨by omega, fun _ => Or.inl (by omega)⟩
  | busy hmain hlen =>
      simp only [remaining, hmain, MainThread.weight]
      exact ⟨by omega, fun _ => Or.inl (by omega)⟩
  | empty hmain hlen =>
      simp only [remaining, hmain, MainThread.weight]
      exact ⟨by omega, fun _ => Or.inl (by omega)⟩
  | complete hmain =>
      simp only [remaining, hmain, MainThread.weight]
      exact ⟨by omega, fun _ => Or.inl (by omega)⟩
  | broadcast hmain =>
      simp only [remaining, hmain, MainThread.weight, CondVar.broadcast, Finset.card_empty]
      exact ⟨by omega, fun _ => Or.inl (by omega)⟩
  | join hmain hi hthread =>
      simp only [remaining, hmain, MainThread.weight]
      exact ⟨by omega, fun _ => Or.inl (by omega)⟩
  | joined hmain hi =>
      simp only [remaining, hmain, MainThread.weight]
      exact ⟨by omega, fun _ => Or.inl (by omega)⟩
  | sleep hw hthread htask hresult =>
      rename_i w
      have hcard : (s.notEmpty.wait w).waiting.card = s.notEmpty.waiting.card + 1 :=
        Finset.card_insert_of_notMem hw.2
      have hle : (s.notEmpty.wait w).waiting.card ≤ n := by
        rw [← Finset.card_range n]
        apply Finset.card_le_card
        intro w' hw'
        rw [Finset.mem_range]
        rcases Finset.mem_insert.mp hw' with rfl | hw'
        · exact hw.1
        · exact (h.placed.atVariable w' (Or.inl hw')).1
      simp only [remaining, hcard]
      exact ⟨by omega, fun _ => Or.inl (by omega)⟩
  | null hw hthread htask hresult =>
      rename_i w
      have hload : load n (Function.update s.workers.threads w .finished) s.tasks + _ = _ :=
        load_threads hw.1
      rw [hthread] at hload
      simp only [Worker.weight] at hload
      simp only [remaining, Workers.put, CondVar.leave]
      exact ⟨by omega, fun _ => Or.inl (by omega)⟩
  | nullHead hw hthread htask hresult =>
      refine ⟨Nat.le_add_right _ 3, fun _ => Or.inr ⟨rfl, ?_⟩⟩
      rintro ⟨hexited, -⟩
      cases hexited
  | take hw hthread htask hresult =>
      rename_i w e
      obtain ⟨l', rfl⟩ := hqueue.eq_cons_of_fetchResult hresult
      have hlen := hqueue.takeNode.length
      have hlength := hqueue.length
      have hmain := s.main.weight_signal (n := n)
      have hload : load n (Function.update s.workers.threads w (s.workers.threads w))
          (Function.update s.tasks w (.node e s.queue.fetched.length)) + _ = _ := load_update hw.1
      rw [Function.update_eq_self, htask] at hload
      rw [List.length_cons] at hlength
      simp only [Task.weight] at hload
      simp only [remaining, hlen, CondVar.leave]
      exact ⟨by omega, fun _ => Or.inl (by omega)⟩
  | returns htask howner hthread =>
      rename_i w old e number number'
      have hw : w < n := h.placed.started w (by simp [hthread])
      have hload : load n
          (Function.update s.workers.threads w (.calling (fetchCommand old (s.queue.item e))))
          (Function.update s.tasks w (.tile number)) + _ = _ := load_update hw
      rw [htask, hthread] at hload
      simp only [Task.weight, Worker.weight] at hload
      simp only [remaining, Workers.put, Submit.returnCommand]
      exact ⟨by omega, fun _ => Or.inl (by omega)⟩
  | call hw hc hcall =>
      obtain ⟨hle, hlt⟩ := remaining_call hw hc hcall
      refine ⟨hle.trans (Nat.le_add_right _ 3), fun ha => Or.inl (hlt ?_)⟩
      rintro rfl
      cases ha
  | lose hw hthread htask hret =>
      rename_i w ret rsp cmd start number
      have hload : load n (Function.update s.workers.threads w (.lost cmd)) s.tasks + _ = _ :=
        load_threads hw
      rw [hthread] at hload
      simp only [Worker.weight] at hload
      simp only [remaining, Workers.put]
      exact ⟨by omega, fun ha => absurd hret (of_decide_eq_false ha)⟩
  | answer hw hthread htask hret =>
      rename_i w ret rsp cmd start number
      have hload : load n (Function.update s.workers.threads w
          (if rsp.cmd ≠ .cmdDone then .idle else .done cmd start))
          (Function.update s.tasks w .nothing) + _ = _ := load_update hw
      have hweight : (if rsp.cmd ≠ .cmdDone then Worker.idle else .done cmd start).weight ≤ 8 := by
        split_ifs <;> simp [Worker.weight]
      have hold : (s.workers.threads w).weight + (s.tasks w).weight = 9 := by
        rw [htask, hthread]
        rfl
      have hnothing : Task.nothing.weight = 0 := rfl
      simp only [remaining, Workers.put]
      exact ⟨by omega, fun _ => Or.inl (by omega)⟩
  | lockStats hw hthread hlock =>
      rename_i w cmd start finish stats
      obtain ⟨hholder, rfl⟩ := Guarded.lock_eq_some.mp hlock
      have hload : load n (Function.update s.workers.threads w .counting) s.tasks + _ = _ :=
        load_threads hw
      rw [hthread] at hload
      simp only [Worker.weight] at hload
      simp only [remaining, Guarded.pending, hholder, Completed.statements, statements,
        List.length_cons, List.length_nil]
      exact ⟨by omega, fun _ => Or.inl (by omega)⟩
  | execStats hw hthread hnext =>
      rename_i w stats
      obtain ⟨k, rest, hholder, ⟨hnew, -⟩ | ⟨hnew, hfailure⟩⟩ := Guarded.next_eq_some hnext
      · simp only [remaining, Guarded.pending, hholder, hnew, List.length_cons]
        exact ⟨by omega, fun _ => Or.inl (by omega)⟩
      · have hpending : stats.pending = s.workers.stats.pending := by
          rw [Guarded.pending, Guarded.pending, hnew]
        have hsame : remaining n { s with workers := { s.workers with stats := stats } } =
            remaining n s := by
          simp only [remaining, hpending]
        refine ⟨by omega, fun _ => Or.inr ⟨hsame, fun hrunning => ?_⟩⟩
        rw [show stats.failure = none from hrunning.2] at hfailure
        cases hfailure
  | unlockStats hw hthread hunlock =>
      rename_i w stats
      obtain ⟨hholder, rfl⟩ := Guarded.unlock_eq_some.mp hunlock
      have hload : load n (Function.update s.workers.threads w .idle) s.tasks + _ = _ :=
        load_threads hw
      rw [hthread] at hload
      simp only [Worker.weight] at hload
      simp only [remaining, Workers.put, Guarded.pending, List.length_nil]
      exact ⟨by omega, fun _ => Or.inl (by omega)⟩
  | wake hw =>
      rename_i w
      have hcard : (s.notEmpty.wake w).waiting.card + 1 = s.notEmpty.waiting.card :=
        Finset.card_erase_add_one hw
      simp only [remaining]
      exact ⟨by omega, by simp [ProgramStep.disturbed]⟩
  | wakeMain hmain =>
      have hle := s.main.weight_signal (n := n)
      rw [hmain] at hle
      simp only [MainThread.signal] at hle
      simp only [remaining, hmain]
      exact ⟨by omega, by simp [ProgramStep.disturbed]⟩

/-- The program is running. -/
def running (s : Program) : Bool := s.queue.exited.isNone && s.workers.stats.failure.isNone

theorem running_iff : s.running = true ↔ s.Running := by simp [running, Running]

/-- What is left to do, with one more as long as the program is running. -/
def potential (n : ℕ) (s : Program) : ℕ := remaining n s + s.running.toNat

variable {calls : List MainCall} {heap : ℕ → Node}

theorem potential_init :
  potential n (init n calls heap) = 17 * calls.length + 5 * n + 5
  := by
  have hload : load n (fun _ => .starting) (fun _ => .nothing) = 2 * n := by
    simp [load, Worker.weight, Task.weight, mul_comm]
  have hremaining : remaining n (init n calls heap) = 17 * calls.length + 5 * n + 4 := by
    simp only [remaining, init, MainThread.weight, Submit.init, Workers.init, hload,
      Guarded.pending, Guarded.init, CondVar.init]
    simp
    omega
  rw [potential, hremaining]
  rfl

theorem potential_step (h : Sound n s) (hrunning : s.Running) (hstep : Step n s a t) :
  potential n t ≤ potential n s + 3 ∧ (a.disturbed = false → potential n t < potential n s)
  := by
  obtain ⟨hle, hlt⟩ := remaining_step h hstep
  have hs : s.running.toNat = 1 := by
    rw [running_iff.mpr hrunning]
    rfl
  have ht : t.running.toNat ≤ 1 := Bool.toNat_le t.running
  rw [potential, potential, hs]
  refine ⟨by omega, fun ha => ?_⟩
  rcases hlt ha with hlt | ⟨hsame, hnot⟩
  · omega
  · have hzero : t.running.toNat = 0 := by
      rw [Bool.eq_false_iff.mpr (mt running_iff.mp hnot)]
      rfl
    omega

/-- A program with one worker and one tile.  The worker waits before the tile is there and is woken
up by the signal, and it waits again until the broadcast. -/
def sampleSteps : List ProgramStep :=
  [.work (.call 0 (.makeConnection true)), .fetch 0, .malloc (some 7), .lock (some 0), .fetch 0,
    .returns 0 Submit.sampleMemory, .work (.call 0 (.gettimeofday (Workers.sampleTime 1))),
    .work (.call 0 .sendCmd), .work (.call 0 (.recvCmd 64 (Workers.sampleProtocol .cmdDone))),
    .work (.call 0 (.gettimeofday (Workers.sampleTime 8))), .work (.lock 0), .work (.exec 0),
    .work (.exec 0), .work (.exec 0), .work (.exec 0), .work (.unlock 0), .fetch 0, .call,
    .lock none, .broadcast, .fetch 0, .join, .join]

end Program

end SubmitQueue
