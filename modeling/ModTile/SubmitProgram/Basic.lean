import ModTile.CondVar
import ModTile.SubmitQueueRuns
import ModTile.SubmitStatistics

/-!
# A submitting program

All threads of a program that uses `render_submit_queue.c`.  The main thread calls `enqueue` and
`wait_for_empty_queue` any number of times, and at last `finish_workers`, which waits until all
workers have ended.  Every worker runs `thread_main`: it calls `fetch`, and `process` for the
command until there is an answer.

What a thread does under `qLock` between two waits is one step.  Workers wait at the condition
variable `qCondNotEmpty`.  Only the main thread waits at `qCondNotFull`, so that a signal there is
for it.  `finish_workers` signals after it has given the lock back, which is a step of its own.

The queue and the workers are those of the models of their own.  The state adds who waits, where
the main thread is, and what every worker has taken from the queue, told by the number of the tile
in the order in which the tiles have been taken.
-/

open Transition

namespace SubmitQueue

/-- A call of the main thread before `finish_workers`. -/
inductive MainCall where
  | enqueue (item : QItem)
  | waitForEmptyQueue

/-- The part of a call of the main thread that needs the lock. -/
inductive Locking where
  | append (e : ℕ)
  | waitForEmptyQueue
  | finishWorkers

/-- Where the main thread is: before its next call, before it has the lock, at the condition
variable `qCondNotFull`, in `finish_workers` before the broadcast and before it joins the worker
`i`, or at the end.  The calls that it has not begun yet are given. -/
inductive MainThread where
  | next (calls : List MainCall)
  | locking (call : Locking) (calls : List MainCall)
  | waiting (call : Locking) (calls : List MainCall)
  | broadcasting
  | joining (i : ℕ)
  | ended

/-- The main thread after a signal of `qCondNotFull`. -/
def MainThread.signal : MainThread → MainThread
  | .waiting call calls => .locking call calls
  | main => main

/-- What a worker has taken from the queue and has no answer for: nothing, a node of which it has
not made the command, or a tile. -/
inductive Task where
  | nothing
  | node (e number : ℕ)
  | tile (number : ℕ)

/-- The answer to the command for a tile. -/
structure Answer where
  number : ℕ
  cmd : Protocol
  rsp : Protocol

/-- The state of a program. -/
structure Program where
  queue : Submit
  notEmpty : CondVar ℕ
  main : MainThread
  workers : Workers
  tasks : ℕ → Task
  connected : ℕ → Bool
  answers : List Answer

/-- The worker that makes a step. -/
def WorkerStep.worker : WorkerStep → ℕ
  | .call w _ => w
  | .lock w => w
  | .exec w => w
  | .unlock w => w

/-- The call gives the worker a connection. -/
def Call.connects : Call → Bool
  | .makeConnection connected => connected
  | _ => false

/-- The call is one that a worker makes in `process` or in order to get a connection, and that is
not the one that receives the answer. -/
def Call.IsOther : Call → Prop
  | .fetch _ => False
  | .recvCmd _ _ => False
  | _ => True

/-- The workers after `w` has got to another point. -/
def Workers.put (s : Workers) (w : ℕ) (worker : Worker) : Workers :=
  { s with threads := Function.update s.threads w worker }

/-- A step of the program.  The main thread allocates a node in `enqueue`, begins one of its other
calls, gets the lock, which may give a signal to a worker, makes the broadcast, and joins a worker.
A worker gets the lock in `fetch`, returns from it, and goes on outside of the queue.  A waiting
thread may also be woken up without a signal. -/
inductive ProgramStep where
  | malloc (address : Option ℕ)
  | call
  | lock (signalled : Option ℕ)
  | broadcast
  | join
  | fetch (w : ℕ)
  | returns (w : ℕ) (old : Protocol)
  | work (a : WorkerStep)
  | wake (w : ℕ)
  | wakeMain

namespace Program

/-- The program before the first step: the queue has a place for every worker. -/
def init (n : ℕ) (calls : List MainCall) (heap : ℕ → Node) : Program where
  queue := .init (UInt32.ofNat n) heap
  notEmpty := .init
  main := .next calls
  workers := .init
  tasks := fun _ => .nothing
  connected := fun _ => false
  answers := []

/-- The main thread has the lock. -/
def lock (s : Program) (signalled : Option ℕ) : Option Program :=
  match s.main with
  | .locking (.append e) calls =>
      if s.queue.qLen = s.queue.qMaxLen then
        some { s with main := .waiting (.append e) calls }
      else
        (s.queue.step (.append e)).bind fun queue =>
          (s.notEmpty.signal signalled).map fun notEmpty =>
            { s with queue := queue, notEmpty := notEmpty, main := .next calls }
  | .locking .waitForEmptyQueue calls =>
      if s.queue.qLen > 0 then
        some { s with main := .waiting .waitForEmptyQueue calls }
      else
        some { s with main := .next calls }
  | .locking .finishWorkers _ =>
      (s.queue.step .finishWorkers).map fun queue =>
        { s with queue := queue, main := .broadcasting }
  | _ => none

/-- The worker `w` has the lock in `fetch`. -/
def fetch (s : Program) (w : ℕ) : Option Program :=
  match s.workers.threads w, s.tasks w with
  | .idle, .nothing =>
      match s.queue.fetchResult with
      | .wait => some { s with notEmpty := s.notEmpty.wait w }
      | .null =>
          (s.workers.step (.call w (.fetch none))).map fun workers =>
            { s with notEmpty := s.notEmpty.leave w, workers := workers }
      | .exit => (s.queue.step .fetch).map fun queue => { s with queue := queue }
      | .node e =>
          (s.queue.step .fetch).map fun queue =>
            { s with
              queue := queue
              notEmpty := s.notEmpty.leave w
              main := s.main.signal
              tasks := Function.update s.tasks w (.node e s.queue.fetched.length) }
  | _, _ => none

/-- A worker makes a step outside of `fetch`.  It is recorded when the worker has a connection, and
when it has received an answer. -/
def work (s : Program) (a : WorkerStep) : Option Program :=
  match a with
  | .call _ (.fetch _) => none
  | .call w (.recvCmd ret rsp) =>
      match s.workers.threads w, s.tasks w with
      | .receiving cmd _, .tile number =>
          (s.workers.step a).map fun workers =>
            if ret < 1 then { s with workers := workers }
            else
              { s with
                workers := workers
                tasks := Function.update s.tasks w .nothing
                answers := s.answers ++ [⟨number, cmd, rsp⟩] }
      | _, _ => none
  | .call w c =>
      (s.workers.step a).map fun workers =>
        { s with
          workers := workers
          connected := if c.connects then Function.update s.connected w true else s.connected }
  | a => (s.workers.step a).map fun workers => { s with workers := workers }

/-- The step of a thread of a program with `n` workers.  There is no result when the thread is not
at this point or has to wait, and when the program has ended or something undefined has happened. -/
def step (n : ℕ) (s : Program) (a : ProgramStep) : Option Program :=
  if s.queue.exited.isSome ∨ s.workers.stats.failure.isSome then none
  else
    match a with
    | .malloc address =>
        match s.main with
        | .next (.enqueue item :: calls) =>
            (s.queue.step (.malloc item address)).map fun queue =>
              { s with
                queue := queue
                main :=
                  match address with
                  | none => s.main
                  | some e => .locking (.append e) calls }
        | _ => none
    | .call =>
        match s.main with
        | .next (.waitForEmptyQueue :: calls) =>
            some { s with main := .locking .waitForEmptyQueue calls }
        | .next [] => some { s with main := .locking .finishWorkers [] }
        | _ => none
    | .lock signalled => s.lock signalled
    | .broadcast =>
        match s.main with
        | .broadcasting => some { s with notEmpty := s.notEmpty.broadcast, main := .joining 0 }
        | _ => none
    | .join =>
        match s.main with
        | .joining i =>
            if i < n then
              match s.workers.threads i with
              | .finished => some { s with main := .joining (i + 1) }
              | _ => none
            else some { s with main := .ended }
        | _ => none
    | .fetch w => if w < n ∧ w ∉ s.notEmpty.waiting then s.fetch w else none
    | .returns w old =>
        match s.tasks w with
        | .node e number =>
            (s.queue.step (.returns e old)).bind fun queue =>
              (s.workers.step (.call w (.fetch (some (fetchCommand old (s.queue.item e)))))).map
                fun workers =>
                  { s with
                    queue := queue
                    workers := workers
                    tasks := Function.update s.tasks w (.tile number) }
        | _ => none
    | .work a => if a.worker < n then s.work a else none
    | .wake w =>
        if w ∈ s.notEmpty.waiting then some { s with notEmpty := s.notEmpty.wake w } else none
    | .wakeMain =>
        match s.main with
        | .waiting call calls => some { s with main := .locking call calls }
        | _ => none

/-! ### What a step does -/

/-- The program has not ended by an exit, and nothing undefined has happened. -/
def Running (s : Program) : Prop := s.queue.exited = none ∧ s.workers.stats.failure = none

/-- The steps of a program, one case for each thing that can happen. -/
inductive Step (n : ℕ) (s : Program) : ProgramStep → Program → Prop where
  | outOfMemory {item calls} (hmain : s.main = .next (.enqueue item :: calls)) :
      Step n s (.malloc none) { s with queue := { s.queue with exited := some .outOfMemory } }
  | malloc {item calls e} (hmain : s.main = .next (.enqueue item :: calls))
      (hfree : s.queue.owner e = .free) :
      Step n s (.malloc (some e))
        { s with queue := s.queue.allocate item e, main := .locking (.append e) calls }
  | callWait {calls} (hmain : s.main = .next (.waitForEmptyQueue :: calls)) :
      Step n s .call { s with main := .locking .waitForEmptyQueue calls }
  | callFinish (hmain : s.main = .next []) :
      Step n s .call { s with main := .locking .finishWorkers [] }
  | full {u e calls} (hmain : s.main = .locking (.append e) calls)
      (hfull : s.queue.qLen = s.queue.qMaxLen) :
      Step n s (.lock u) { s with main := .waiting (.append e) calls }
  | append {u e calls notEmpty} (hmain : s.main = .locking (.append e) calls)
      (howner : s.queue.owner e = .enqueuing) (hfull : s.queue.qLen ≠ s.queue.qMaxLen)
      (hsignal : s.notEmpty.signal u = some notEmpty) :
      Step n s (.lock u)
        { s with queue := s.queue.appendNode e, notEmpty := notEmpty, main := .next calls }
  | busy {u calls} (hmain : s.main = .locking .waitForEmptyQueue calls)
      (hlen : s.queue.qLen > 0) :
      Step n s (.lock u) { s with main := .waiting .waitForEmptyQueue calls }
  | empty {u calls} (hmain : s.main = .locking .waitForEmptyQueue calls)
      (hlen : ¬ s.queue.qLen > 0) :
      Step n s (.lock u) { s with main := .next calls }
  | complete {u calls} (hmain : s.main = .locking .finishWorkers calls) :
      Step n s (.lock u)
        { s with queue := { s.queue with workComplete := true }, main := .broadcasting }
  | broadcast (hmain : s.main = .broadcasting) :
      Step n s .broadcast { s with notEmpty := s.notEmpty.broadcast, main := .joining 0 }
  | join {i} (hmain : s.main = .joining i) (hi : i < n)
      (hthread : s.workers.threads i = .finished) :
      Step n s .join { s with main := .joining (i + 1) }
  | joined {i} (hmain : s.main = .joining i) (hi : ¬ i < n) :
      Step n s .join { s with main := .ended }
  | sleep {w} (hw : w < n ∧ w ∉ s.notEmpty.waiting) (hthread : s.workers.threads w = .idle)
      (htask : s.tasks w = .nothing) (hresult : s.queue.fetchResult = .wait) :
      Step n s (.fetch w) { s with notEmpty := s.notEmpty.wait w }
  | null {w} (hw : w < n ∧ w ∉ s.notEmpty.waiting) (hthread : s.workers.threads w = .idle)
      (htask : s.tasks w = .nothing) (hresult : s.queue.fetchResult = .null) :
      Step n s (.fetch w)
        { s with notEmpty := s.notEmpty.leave w, workers := s.workers.put w .finished }
  | nullHead {w} (hw : w < n ∧ w ∉ s.notEmpty.waiting) (hthread : s.workers.threads w = .idle)
      (htask : s.tasks w = .nothing) (hresult : s.queue.fetchResult = .exit) :
      Step n s (.fetch w) { s with queue := { s.queue with exited := some .nullHead } }
  | take {w e} (hw : w < n ∧ w ∉ s.notEmpty.waiting) (hthread : s.workers.threads w = .idle)
      (htask : s.tasks w = .nothing) (hresult : s.queue.fetchResult = .node e) :
      Step n s (.fetch w)
        { s with
          queue := s.queue.takeNode e
          notEmpty := s.notEmpty.leave w
          main := s.main.signal
          tasks := Function.update s.tasks w (.node e s.queue.fetched.length) }
  | returns {w old e number number'} (htask : s.tasks w = .node e number)
      (howner : s.queue.owner e = .fetched number') (hthread : s.workers.threads w = .idle) :
      Step n s (.returns w old)
        { s with
          queue := s.queue.returnCommand e number' old
          workers := s.workers.put w (.calling (fetchCommand old (s.queue.item e)))
          tasks := Function.update s.tasks w (.tile number) }
  | call {w c worker} (hw : w < n) (hc : c.IsOther)
      (hcall : (s.workers.threads w).call c = some worker) :
      Step n s (.work (.call w c))
        { s with
          workers := s.workers.put w worker
          connected := if c.connects then Function.update s.connected w true else s.connected }
  | lose {w ret rsp cmd start number} (hw : w < n)
      (hthread : s.workers.threads w = .receiving cmd start) (htask : s.tasks w = .tile number)
      (hret : ret < 1) :
      Step n s (.work (.call w (.recvCmd ret rsp)))
        { s with workers := s.workers.put w (.lost cmd) }
  | answer {w ret rsp cmd start number} (hw : w < n)
      (hthread : s.workers.threads w = .receiving cmd start) (htask : s.tasks w = .tile number)
      (hret : ¬ ret < 1) :
      Step n s (.work (.call w (.recvCmd ret rsp)))
        { s with
          workers := s.workers.put w (if rsp.cmd ≠ .cmdDone then .idle else .done cmd start)
          tasks := Function.update s.tasks w .nothing
          answers := s.answers ++ [⟨number, cmd, rsp⟩] }
  | lockStats {w cmd start finish stats} (hw : w < n)
      (hthread : s.workers.threads w = .locking cmd start finish)
      (hlock : s.workers.stats.lock w (Completed.statements ⟨cmd.z, start, finish⟩) =
        some stats) :
      Step n s (.work (.lock w))
        { s with
          workers :=
            { threads := Function.update s.workers.threads w .counting
              stats := stats
              completed := s.workers.completed ++ [⟨cmd.z, start, finish⟩] } }
  | execStats {w stats} (hw : w < n) (hthread : s.workers.threads w = .counting)
      (hnext : s.workers.stats.next exec w = some stats) :
      Step n s (.work (.exec w)) { s with workers := { s.workers with stats := stats } }
  | unlockStats {w stats} (hw : w < n) (hthread : s.workers.threads w = .counting)
      (hunlock : s.workers.stats.unlock w = some stats) :
      Step n s (.work (.unlock w))
        { s with workers := { s.workers.put w .idle with stats := stats } }
  | wake {w} (hw : w ∈ s.notEmpty.waiting) :
      Step n s (.wake w) { s with notEmpty := s.notEmpty.wake w }
  | wakeMain {call calls} (hmain : s.main = .waiting call calls) :
      Step n s .wakeMain { s with main := .locking call calls }

variable {n : ℕ} {s t : Program} {a : ProgramStep}

section Inversion

theorem running_iff_not_ended :
  s.Running ↔ ¬(s.queue.exited.isSome ∨ s.workers.stats.failure.isSome)
  := by
  rw [Running, not_or, Option.not_isSome_iff_eq_none, Option.not_isSome_iff_eq_none]

theorem running_of_step (h : step n s a = some t) :
  s.Running
  := by
  rw [running_iff_not_ended]
  intro hended
  have hnone : step n s a = none := if_pos hended
  rw [hnone] at h
  cases h

theorem queue_step_finishWorkers (h : s.Running) :
  s.queue.step .finishWorkers = some { s.queue with workComplete := true }
  := by
  unfold Submit.step
  split
  · rename_i hexited
    rw [h.1] at hexited
    cases hexited
  · rfl

/-- A call of a worker. -/
theorem workers_step_call (h : s.Running) (w : ℕ) (c : Call) :
  s.workers.step (.call w c) = ((s.workers.threads w).call c).map (s.workers.put w)
  := by
  rw [Workers.step, h.2]
  rfl

/-- A worker receives an answer. -/
theorem call_recvCmd {worker : Worker} {cmd rsp : Protocol} {start : Timeval} {ret : ℤ}
    (hworker : worker = .receiving cmd start) (hret : ¬ ret < 1) :
  worker.call (.recvCmd ret rsp) = some (if rsp.cmd ≠ .cmdDone then .idle else .done cmd start)
  := by
  rw [hworker, Worker.call, if_neg hret]
  split_ifs <;> rfl

theorem step_of_lock {u : Option ℕ} (hrunning : s.Running) (h : s.lock u = some t) :
  Step n s (.lock u) t
  := by
  rw [lock] at h
  split at h
  · rename_i e calls hmain
    split_ifs at h with hfull
    · obtain rfl := Option.some.inj h
      exact .full hmain hfull
    · obtain ⟨queue, hqueue, h⟩ := Option.bind_eq_some_iff.mp h
      obtain ⟨notEmpty, hsignal, rfl⟩ := Option.map_eq_some_iff.mp h
      simp only [Submit.step, hrunning.1] at hqueue
      split_ifs at hqueue with howner
      obtain rfl := Option.some.inj hqueue
      exact .append hmain howner.1 hfull hsignal
  · rename_i calls hmain
    split_ifs at h with hlen
    · obtain rfl := Option.some.inj h
      exact .busy hmain hlen
    · obtain rfl := Option.some.inj h
      exact .empty hmain hlen
  · rename_i calls hmain
    rw [queue_step_finishWorkers hrunning] at h
    obtain rfl := Option.some.inj h
    exact .complete hmain
  · cases h

theorem step_of_fetch {w : ℕ} (hrunning : s.Running) (hw : w < n ∧ w ∉ s.notEmpty.waiting)
    (h : s.fetch w = some t) :
  Step n s (.fetch w) t
  := by
  rw [fetch] at h
  split at h
  · rename_i hthread htask
    split at h
    · rename_i hresult
      obtain rfl := Option.some.inj h
      exact .sleep hw hthread htask hresult
    · rename_i hresult
      rw [workers_step_call hrunning, hthread] at h
      obtain rfl := Option.some.inj h
      exact .null hw hthread htask hresult
    · rename_i hresult
      simp only [Submit.step, hrunning.1, hresult, Option.map_some] at h
      obtain rfl := Option.some.inj h
      exact .nullHead hw hthread htask hresult
    · rename_i e hresult
      simp only [Submit.step, hrunning.1, hresult, Option.map_some] at h
      obtain rfl := Option.some.inj h
      exact .take hw hthread htask hresult
  · cases h

theorem step_of_work {b : WorkerStep} (hrunning : s.Running) (hw : b.worker < n)
    (h : s.work b = some t) :
  Step n s (.work b) t
  := by
  rw [work.eq_def] at h
  split at h
  · cases h
  · rename_i w ret rsp
    split at h
    · rename_i cmd start number hthread htask
      rw [workers_step_call hrunning, hthread] at h
      obtain ⟨workers, hworkers, rfl⟩ := Option.map_eq_some_iff.mp h
      obtain ⟨worker, hworker, rfl⟩ := Option.map_eq_some_iff.mp hworkers
      by_cases hret : ret < 1
      · rw [Worker.call, if_pos hret] at hworker
        obtain rfl := Option.some.inj hworker
        rw [if_pos hret]
        exact .lose hw hthread htask hret
      · rw [call_recvCmd rfl hret] at hworker
        obtain rfl := Option.some.inj hworker
        rw [if_neg hret]
        exact .answer hw hthread htask hret
    · cases h
  · rename_i w c hfetch hrecv
    rw [workers_step_call hrunning] at h
    obtain ⟨workers, hworkers, rfl⟩ := Option.map_eq_some_iff.mp h
    obtain ⟨worker, hworker, rfl⟩ := Option.map_eq_some_iff.mp hworkers
    have hc : c.IsOther := by
      cases c with
      | fetch cmd => exact (hfetch cmd rfl).elim
      | recvCmd ret rsp => exact (hrecv ret rsp rfl).elim
      | makeConnection connected => trivial
      | gettimeofday tim => trivial
      | sendCmd => trivial
    exact .call hw hc hworker
  · rename_i hcall
    obtain ⟨workers, hworkers, rfl⟩ := Option.map_eq_some_iff.mp h
    cases b with
    | call w c => exact (hcall w c rfl).elim
    | lock w =>
        simp only [Workers.step, hrunning.2] at hworkers
        split at hworkers
        · rename_i cmd start finish hthread
          obtain ⟨stats, hstats, rfl⟩ := Option.map_eq_some_iff.mp hworkers
          exact .lockStats hw hthread hstats
        · cases hworkers
    | exec w =>
        simp only [Workers.step, hrunning.2] at hworkers
        split at hworkers
        · rename_i hthread
          obtain ⟨stats, hstats, rfl⟩ := Option.map_eq_some_iff.mp hworkers
          exact .execStats hw hthread hstats
        · cases hworkers
    | unlock w =>
        simp only [Workers.step, hrunning.2] at hworkers
        split at hworkers
        · rename_i hthread
          obtain ⟨stats, hstats, rfl⟩ := Option.map_eq_some_iff.mp hworkers
          exact .unlockStats hw hthread hstats
        · cases hworkers

/-- Every step is one of these. -/
theorem Step.of_step (h : step n s a = some t) :
  Step n s a t
  := by
  have hrunning := running_of_step h
  rw [step.eq_def, if_neg (running_iff_not_ended.mp hrunning)] at h
  cases a with
  | malloc address =>
      dsimp only at h
      split at h
      · rename_i item calls hmain
        cases address with
        | none =>
            simp only [Submit.step, hrunning.1, Option.map_some] at h
            obtain rfl := Option.some.inj h
            exact .outOfMemory hmain
        | some e =>
            simp only [Submit.step, hrunning.1] at h
            split_ifs at h with hfree
            · obtain rfl := Option.some.inj h
              exact .malloc hmain hfree
            · cases h
      · cases h
  | call =>
      dsimp only at h
      split at h
      · rename_i calls hmain
        obtain rfl := Option.some.inj h
        exact .callWait hmain
      · rename_i hmain
        obtain rfl := Option.some.inj h
        exact .callFinish hmain
      · cases h
  | lock u => exact step_of_lock hrunning h
  | broadcast =>
      dsimp only at h
      split at h
      · rename_i hmain
        obtain rfl := Option.some.inj h
        exact .broadcast hmain
      · cases h
  | join =>
      dsimp only at h
      split at h
      · rename_i i hmain
        split_ifs at h with hi
        · split at h
          · rename_i hthread
            obtain rfl := Option.some.inj h
            exact .join hmain hi hthread
          · cases h
        · obtain rfl := Option.some.inj h
          exact .joined hmain hi
      · cases h
  | fetch w =>
      dsimp only at h
      split_ifs at h with hw
      exact step_of_fetch hrunning hw h
  | returns w old =>
      dsimp only at h
      split at h
      · rename_i e number htask
        obtain ⟨queue, hqueue, h⟩ := Option.bind_eq_some_iff.mp h
        obtain ⟨workers, hworkers, rfl⟩ := Option.map_eq_some_iff.mp h
        rw [workers_step_call hrunning] at hworkers
        obtain ⟨worker, hworker, rfl⟩ := Option.map_eq_some_iff.mp hworkers
        simp only [Submit.step, hrunning.1] at hqueue
        split at hqueue
        · rename_i number' howner
          obtain rfl := Option.some.inj hqueue
          cases hthread : s.workers.threads w with
          | idle =>
              rw [hthread] at hworker
              obtain rfl := Option.some.inj hworker
              exact .returns htask howner hthread
          | _ =>
              rw [hthread] at hworker
              cases hworker
        · cases hqueue
      · cases h
  | work b =>
      dsimp only at h
      split_ifs at h with hw
      exact step_of_work hrunning hw h
  | wake w =>
      dsimp only at h
      split_ifs at h with hw
      obtain rfl := Option.some.inj h
      exact .wake hw
  | wakeMain =>
      dsimp only at h
      split at h
      · rename_i call calls hmain
        obtain rfl := Option.some.inj h
        exact .wakeMain hmain
      · cases h

/-- Each of these is a step of a running program. -/
theorem Step.step (hrunning : s.Running) (h : Step n s a t) :
  step n s a = some t
  := by
  rw [Program.step.eq_def, if_neg (running_iff_not_ended.mp hrunning)]
  cases h with
  | outOfMemory hmain => simp [hmain, Submit.step, hrunning.1]
  | malloc hmain hfree => simp [hmain, Submit.step, hrunning.1, hfree]
  | callWait hmain => simp [hmain]
  | callFinish hmain => simp [hmain]
  | full hmain hfull => simp [lock, hmain, hfull]
  | append hmain howner hfull hsignal =>
      simp [lock, hmain, hfull, Submit.step, hrunning.1, howner, hsignal]
  | busy hmain hlen => simp [lock, hmain, hlen]
  | empty hmain hlen => simp [lock, hmain, hlen]
  | complete hmain => simp [lock, hmain, queue_step_finishWorkers hrunning]
  | broadcast hmain => simp [hmain]
  | join hmain hi hthread => simp [hmain, hi, hthread]
  | joined hmain hi => simp [hmain, hi]
  | sleep hw hthread htask hresult => simp [hw, fetch, hthread, htask, hresult]
  | null hw hthread htask hresult =>
      simp [hw, fetch, hthread, htask, hresult, workers_step_call hrunning, Worker.call]
  | nullHead hw hthread htask hresult =>
      simp [hw, fetch, hthread, htask, hresult, Submit.step, hrunning.1]
  | take hw hthread htask hresult =>
      simp [hw, fetch, hthread, htask, hresult, Submit.step, hrunning.1]
  | returns htask howner hthread =>
      simp [htask, howner, hthread, Submit.step, hrunning.1, workers_step_call hrunning,
        Worker.call]
  | call hw hc hcall =>
      rename_i w c worker
      have hstep := workers_step_call hrunning w c
      rw [hcall] at hstep
      cases c with
      | fetch cmd => cases hc
      | recvCmd ret rsp => cases hc
      | makeConnection connected => simp [WorkerStep.worker, hw, work, hstep]
      | gettimeofday tim => simp [WorkerStep.worker, hw, work, hstep]
      | sendCmd => simp [WorkerStep.worker, hw, work, hstep]
  | lose hw hthread htask hret =>
      simp [WorkerStep.worker, hw, work, hthread, htask, hret, workers_step_call hrunning,
        Worker.call]
  | answer hw hthread htask hret =>
      rename_i w ret rsp cmd start number
      have hstep := workers_step_call hrunning w (.recvCmd ret rsp)
      rw [call_recvCmd hthread hret] at hstep
      simp [WorkerStep.worker, hw, work, hthread, htask, hret, hstep]
  | lockStats hw hthread hlock =>
      simp [WorkerStep.worker, hw, work, Workers.step, hrunning.2, hthread, hlock]
  | execStats hw hthread hnext =>
      simp [WorkerStep.worker, hw, work, Workers.step, hrunning.2, hthread, hnext]
  | unlockStats hw hthread hunlock =>
      simp [WorkerStep.worker, hw, work, Workers.step, hrunning.2, hthread, hunlock, Workers.put]
  | wake hw => simp [hw]
  | wakeMain hmain => simp [hmain]

end Inversion

/-! ### The queue and the workers in a run -/

/-- A step of the program is a step of the queue or leaves the queue alone. -/
theorem Step.queue (hrunning : s.Running) (h : Step n s a t) :
  t.queue = s.queue ∨ ∃ b, s.queue.step b = some t.queue
  := by
  cases h with
  | outOfMemory hmain =>
      rename_i item calls
      right
      use .malloc item none
      simp [Submit.step, hrunning.1]
  | malloc hmain hfree =>
      rename_i item calls e
      right
      use .malloc item (some e)
      simp [Submit.step, hrunning.1, hfree]
  | append hmain howner hfull hsignal =>
      rename_i u e calls notEmpty
      right
      use .append e
      simp [Submit.step, hrunning.1, howner, hfull]
  | complete hmain => exact Or.inr ⟨.finishWorkers, queue_step_finishWorkers hrunning⟩
  | nullHead hw hthread htask hresult =>
      right
      use .fetch
      simp [Submit.step, hrunning.1, hresult]
  | take hw hthread htask hresult =>
      right
      use .fetch
      simp [Submit.step, hrunning.1, hresult]
  | returns htask howner hthread =>
      rename_i w old e number number'
      right
      use .returns e old
      simp [Submit.step, hrunning.1, howner]
  | _ => exact Or.inl rfl

/-- A step of the program is a step of a worker or leaves the workers alone. -/
theorem Step.workers (hrunning : s.Running) (h : Step n s a t) :
  t.workers = s.workers ∨ ∃ b, s.workers.step b = some t.workers
  := by
  cases h with
  | null hw hthread htask hresult =>
      rename_i w
      right
      use .call w (.fetch none)
      simp [workers_step_call hrunning, hthread, Worker.call]
  | returns htask howner hthread =>
      rename_i w old e number number'
      right
      use .call w (.fetch (some (fetchCommand old (s.queue.item e))))
      simp [workers_step_call hrunning, hthread, Worker.call]
  | call hw hc hcall =>
      rename_i w c worker
      right
      use .call w c
      simp [workers_step_call hrunning, hcall]
  | lose hw hthread htask hret =>
      rename_i w ret rsp cmd start number
      right
      use .call w (.recvCmd ret rsp)
      simp [workers_step_call hrunning, hthread, Worker.call, hret]
  | answer hw hthread htask hret =>
      rename_i w ret rsp cmd start number
      right
      use .call w (.recvCmd ret rsp)
      rw [workers_step_call hrunning, call_recvCmd hthread hret]
      rfl
  | lockStats hw hthread hlock =>
      rename_i w cmd start finish stats
      right
      use .lock w
      simp [Workers.step, hrunning.2, hthread, hlock]
  | execStats hw hthread hnext =>
      rename_i w stats
      right
      use .exec w
      simp [Workers.step, hrunning.2, hthread, hnext]
  | unlockStats hw hthread hunlock =>
      rename_i w stats
      right
      use .unlock w
      simp [Workers.step, hrunning.2, hthread, hunlock, Workers.put]
  | _ => exact Or.inl rfl

variable {calls : List MainCall} {heap : ℕ → Node}

/-- The queue of a run of the program is that of a run of the queue. -/
theorem reach_queue (h : Reach (Program.step n) anyStep (init n calls heap) s) :
  Reach Submit.step anyStep (Submit.init (UInt32.ofNat n) heap) s.queue
  := by
  apply h.project (f := Program.queue)
  intro s a t _ hstep
  exact ((Step.of_step hstep).queue (running_of_step hstep)).imp_right fun ⟨b, hb⟩ =>
    ⟨b, trivial, hb⟩

/-- The workers of a run of the program are those of a run of the workers. -/
theorem reach_workers (h : Reach (Program.step n) anyStep (init n calls heap) s) :
  Reach Workers.step anyStep Workers.init s.workers
  := by
  apply h.project (f := Program.workers)
  intro s a t _ hstep
  exact ((Step.of_step hstep).workers (running_of_step hstep)).imp_right fun ⟨b, hb⟩ =>
    ⟨b, trivial, hb⟩

end Program

end SubmitQueue
