import ModTile.SubmitProgram.Threads

/-!
# A submitting program comes to its end

The main thread and the workers wait for each other in turn.  No signal is lost on the way: when a
worker waits although there are tiles in the queue, as many workers have been woken up and will
look into the queue.  The main thread waits only for what a worker will do.

So a program is stuck in one case only: every worker has ended because it got no connection, and
the main thread waits for one of them.  Otherwise something can always be done, and a potential
bounds how often.
-/

open Transition

namespace SubmitQueue

/-- The main thread has told the workers that the work is complete. -/
def MainThread.closing : MainThread → Bool
  | .broadcasting => true
  | .joining _ => true
  | .ended => true
  | _ => false

/-- The main thread has also woken them up. -/
def MainThread.closed : MainThread → Bool
  | .joining _ => true
  | .ended => true
  | _ => false

theorem MainThread.closing_signal (main : MainThread) :
  main.signal.closing = main.closing
  := by
  cases main <;> rfl

theorem MainThread.closed_signal (main : MainThread) :
  main.signal.closed = main.closed
  := by
  cases main <;> rfl

/-- The step is a disturbance: there is no memory, no connection or no answer, or a thread is woken
up without a signal. -/
def ProgramStep.disturbed : ProgramStep → Bool
  | .malloc none => true
  | .work (.call _ (.makeConnection connected)) => !connected
  | .work (.call _ (.recvCmd ret _)) => ret < 1
  | .wake _ => true
  | .wakeMain => true
  | _ => false

namespace Timeval

theorem epoch_nonneg : 0 ≤ (0 : Int64).toInt := by decide

theorem epoch_lt : (0 : Int64).toInt < 1000000 := by decide

theorem epoch_fits : (0 : Int64).toInt * 1000 + (0 : Int64).toInt / 1000 < 2 ^ 63 := by decide

/-- The begin of the epoch. -/
def epoch : Timeval where
  tvSec := 0
  tvUsec := 0
  tvSec_nonneg := epoch_nonneg
  tvUsec_nonneg := epoch_nonneg
  tvUsec_lt := epoch_lt
  fits := epoch_fits

end Timeval

/-! ### The lock of the statistics -/

/-- The worker with the lock of the statistics is the one that counts a request. -/
def Workers.Held (s : Workers) : Prop :=
  ∀ w, s.threads w = .counting ↔ ∃ rest, s.stats.holder = some (w, rest)

/-- A call does not lead to the lock of the statistics, and is not made with it. -/
theorem Worker.ne_counting_of_call {worker worker' : Worker} {c : Call}
    (h : worker.call c = some worker') :
  worker ≠ .counting ∧ worker' ≠ .counting
  := by
  constructor
  · rintro rfl
    cases c <;> cases h
  · rintro rfl
    unfold Worker.call at h
    split at h <;> try split_ifs at h
    all_goals first | cases h | (split at h <;> cases h)

namespace Workers.Held

variable {s s' : Workers} {a : WorkerStep} {w : ℕ}

theorem init : Workers.init.Held := fun _ => iff_of_false nofun nofun

/-- A worker without the lock gets to another point without the lock. -/
theorem put {worker : Worker} (h : s.Held) (hold : s.threads w ≠ .counting)
    (hnew : worker ≠ .counting) :
  (s.put w worker).Held
  := by
  intro w'
  by_cases hw : w' = w
  · subst hw
    apply iff_of_false _ fun hrest => hold ((h w').mpr hrest)
    dsimp only [Workers.put]
    rw [Function.update_self]
    exact hnew
  · dsimp only [Workers.put]
    rw [Function.update_of_ne hw]
    exact h w'

theorem step (h : s.Held) (hstep : s.step a = some s') :
  s'.Held
  := by
  unfold Workers.step at hstep
  split at hstep
  · cases hstep
  cases a with
  | call w c =>
      obtain ⟨worker, hworker, rfl⟩ := Option.map_eq_some_iff.mp hstep
      obtain ⟨hold, hnew⟩ := Worker.ne_counting_of_call hworker
      exact h.put hold hnew
  | lock w =>
      dsimp only at hstep
      split at hstep
      · obtain ⟨stats, hlock, rfl⟩ := Option.map_eq_some_iff.mp hstep
        obtain ⟨hnone, rfl⟩ := Guarded.lock_eq_some.mp hlock
        intro w'
        by_cases hw : w' = w
        · subst hw
          exact iff_of_true (Function.update_self _ _ _) ⟨_, rfl⟩
        · have hnot : s.threads w' ≠ .counting := by
            rw [ne_eq, h w', hnone]
            rintro ⟨rest, hrest⟩
            cases hrest
          apply iff_of_false
          · dsimp only
            rwa [Function.update_of_ne hw]
          · rintro ⟨rest, hrest⟩
            exact hw (Prod.mk.inj (Option.some.inj hrest)).1.symm
      · cases hstep
  | exec w =>
      dsimp only at hstep
      split at hstep
      · obtain ⟨stats, hnext, rfl⟩ := Option.map_eq_some_iff.mp hstep
        obtain ⟨k, rest, hholder, ⟨hnew, -⟩ | ⟨hnew, -⟩⟩ := Guarded.next_eq_some hnext
        · intro w'
          have hw' := h w'
          dsimp only
          rw [hholder] at hw'
          rw [hw', hnew]
          simp
        · intro w'
          dsimp only
          rw [hnew]
          exact h w'
      · cases hstep
  | unlock w =>
      dsimp only at hstep
      split at hstep
      · obtain ⟨stats, hunlock, rfl⟩ := Option.map_eq_some_iff.mp hstep
        obtain ⟨hholder, rfl⟩ := Guarded.unlock_eq_some.mp hunlock
        intro w'
        apply iff_of_false _ nofun
        dsimp only
        by_cases hw : w' = w
        · subst hw
          rw [Function.update_self]
          nofun
        · rw [Function.update_of_ne hw, h w', hholder]
          rintro ⟨rest, hrest⟩
          exact hw (Prod.mk.inj (Option.some.inj hrest)).1.symm
      · cases hstep

end Workers.Held

theorem Workers.held_of_reach {s : Workers} (h : Reach Workers.step anyStep Workers.init s) :
  s.Held
  := by
  apply h.invariant (I := Held)
  · exact Held.init
  · intro s a s' hs _ hstep
    exact hs.step hstep

namespace Program

variable {n : ℕ} {s t : Program} {a : ProgramStep} {w : ℕ} {l : List ℕ}

/-! ### What the threads know of each other -/

/-- What the main thread knows of the queue: the node that it appends is its own, and it waits
only while the queue is full, or not empty. -/
def MainFits (queue : Submit) : MainThread → Prop
  | .locking (.append e) _ => queue.owner e = .enqueuing
  | .waiting (.append e) _ => queue.owner e = .enqueuing ∧ queue.qLen = queue.qMaxLen
  | .waiting .waitForEmptyQueue _ => queue.qLen ≠ 0
  | .waiting .finishWorkers _ => False
  | _ => True

/-- The workers that the main thread has joined have ended. -/
def Joined (n : ℕ) (threads : ℕ → Worker) : MainThread → Prop
  | .joining i => ∀ j < i, threads j = .finished
  | .ended => ∀ j < n, threads j = .finished
  | _ => True

/-- What the threads know of each other.  A worker that has had a connection ends only when the
work is complete and the queue is empty. -/
structure Synced (n : ℕ) (s : Program) : Prop where
  main : MainFits s.queue s.main
  complete : s.queue.workComplete = s.main.closing
  woken : s.main.closed = true → s.notEmpty.waiting = ∅
  covers : s.notEmpty.Covers s.queue.qLen.toNat
  joined : Joined n s.workers.threads s.main
  unconnected : ∀ w, s.workers.threads w = .starting → s.connected w = false
  finished : ∀ w, s.workers.threads w = .finished → s.connected w = true →
    s.queue.workComplete = true ∧ s.queue.qLen = 0

theorem MainFits.mono {queue queue' : Submit} {main : MainThread} (h : MainFits queue main)
    (howner : ∀ {e}, queue.owner e = .enqueuing → queue'.owner e = .enqueuing)
    (hlen : queue'.qLen = queue.qLen) (hmax : queue'.qMaxLen = queue.qMaxLen) :
  MainFits queue' main
  := by
  rcases main with _ | ⟨_ | _ | _, _⟩ | ⟨_ | _ | _, _⟩ | _ | _ | _
  case locking.append => exact howner h
  case waiting.append => exact ⟨howner h.1, by rw [hlen, hmax]; exact h.2⟩
  case waiting.waitForEmptyQueue => exact fun hzero => h (hlen ▸ hzero)
  all_goals exact h

/-- After a signal, the main thread has to look again. -/
theorem MainFits.signal {queue queue' : Submit} {main : MainThread} (h : MainFits queue main)
    (howner : ∀ {e}, queue.owner e = .enqueuing → queue'.owner e = .enqueuing) :
  MainFits queue' main.signal
  := by
  rcases main with _ | ⟨_ | _ | _, _⟩ | ⟨_ | _ | _, _⟩ | _ | _ | _
  case locking.append => exact howner h
  case waiting.append => exact howner h.1
  all_goals trivial

theorem joined_signal {threads : ℕ → Worker} {main : MainThread} :
  Joined n threads main.signal ↔ Joined n threads main
  := by
  cases main <;> rfl

theorem Joined.mono {threads threads' : ℕ → Worker} {main : MainThread} (h : Joined n threads main)
    (hle : ∀ {j}, threads j = .finished → threads' j = .finished) :
  Joined n threads' main
  := by
  cases main with
  | joining i => exact fun j hj => hle (h j hj)
  | ended => exact fun j hj => hle (h j hj)
  | _ => trivial

/-- A worker that gets to another point is not before its first connection any more. -/
theorem ne_starting_of_call {worker worker' : Worker} {c : Call}
    (h : worker.call c = some worker') :
  worker' ≠ .starting
  := by
  rintro rfl
  unfold Worker.call at h
  split at h <;> try split_ifs at h
  all_goals first | cases h | (split at h <;> cases h)

/-- A worker that ends outside of `fetch` has got no connection. -/
theorem starting_of_call {worker : Worker} {c : Call} (hc : c.IsOther)
    (h : worker.call c = some .finished) :
  worker = .starting ∧ c.connects = false
  := by
  cases worker with
  | starting =>
      cases c with
      | makeConnection connected =>
          cases connected with
          | false => exact ⟨rfl, rfl⟩
          | true => cases h
      | _ => cases h
  | lost cmd =>
      cases c with
      | makeConnection connected => cases connected <;> cases h
      | _ => cases h
  | _ => cases c <;> cases hc <;> cases h

/-- A worker without its first connection ends. -/
theorem finished_of_call {worker : Worker} {c : Call} (hc : c.IsOther)
    (h : Worker.starting.call c = some worker) (hconnects : c.connects = false) :
  worker = .finished
  := by
  cases c with
  | fetch cmd => cases hc
  | recvCmd ret rsp => cases hc
  | makeConnection connected =>
      obtain rfl : connected = false := hconnects
      exact (Option.some.inj h).symm
  | gettimeofday tim => cases h
  | sendCmd => cases h

/-- What a step can do with the worker `w`.  A worker never ends but in `fetch`, when the work is
complete and the queue is empty, or without having had a connection, and it gets nowhere else
without one. -/
def Follows (s t : Program) (w : ℕ) : Prop :=
  t.workers.threads w = s.workers.threads w ∧ t.connected w = s.connected w ∨
    s.workers.threads w ≠ .finished ∧ t.workers.threads w ≠ .starting ∧
      (t.workers.threads w = .finished → s.queue.fetchResult = .null ∨
        s.workers.threads w = .starting ∧ t.connected w = s.connected w) ∧
      (t.workers.threads w ≠ .finished → t.connected w = true ∨
        s.workers.threads w ≠ .starting ∧ t.connected w = s.connected w)

theorem follows_of_update {w' : ℕ} {worker : Worker}
    (hthreads : t.workers.threads = Function.update s.workers.threads w' worker)
    (hconnected : w ≠ w' → t.connected w = s.connected w)
    (hne : s.workers.threads w' ≠ .finished) (hstarting : worker ≠ .starting)
    (hfinished : worker = .finished → s.queue.fetchResult = .null ∨
      s.workers.threads w' = .starting ∧ t.connected w' = s.connected w')
    (hnot : worker ≠ .finished → t.connected w' = true ∨
      s.workers.threads w' ≠ .starting ∧ t.connected w' = s.connected w') :
  Follows s t w
  := by
  rw [Follows, hthreads]
  by_cases hw : w = w'
  · subst hw
    rw [Function.update_self]
    exact Or.inr ⟨hne, hstarting, hfinished, hnot⟩
  · rw [Function.update_of_ne hw]
    exact Or.inl ⟨rfl, hconnected hw⟩

/-- A worker that has had a connection and does not end. -/
theorem follows_of_ne {w' : ℕ} {worker : Worker}
    (hthreads : t.workers.threads = Function.update s.workers.threads w' worker)
    (hconnected : t.connected = s.connected)
    (hold : s.workers.threads w' ≠ .starting ∧ s.workers.threads w' ≠ .finished)
    (hnew : worker ≠ .starting ∧ worker ≠ .finished) :
  Follows s t w
  := by
  apply follows_of_update hthreads _ hold.2 hnew.1
  · exact fun hfinished => absurd hfinished hnew.2
  · exact fun _ => Or.inr ⟨hold.1, by rw [hconnected]⟩
  · exact fun _ => by rw [hconnected]

theorem Step.follows (h : Step n s a t) (w : ℕ) :
  Follows s t w
  := by
  cases h with
  | null hw hthread htask hresult =>
      exact follows_of_update rfl (fun _ => rfl) (by rw [hthread]; nofun) nofun
        (fun _ => Or.inl hresult) (fun hne => absurd rfl hne)
  | returns htask howner hthread =>
      exact follows_of_ne rfl rfl (by rw [hthread]; exact ⟨nofun, nofun⟩) ⟨nofun, nofun⟩
  | call hw hc hcall =>
      rename_i w' c worker
      apply follows_of_update rfl _ (Worker.ne_of_call hc hcall).2 (ne_starting_of_call hcall)
      · rintro rfl
        obtain ⟨hstarting, hconnects⟩ := starting_of_call hc hcall
        right
        rw [hconnects]
        exact ⟨hstarting, rfl⟩
      · intro hne
        dsimp only
        split_ifs with hconnects
        · exact Or.inl (Function.update_self _ _ _)
        · refine Or.inr ⟨fun hstarting => hne ?_, rfl⟩
          rw [hstarting] at hcall
          exact finished_of_call hc hcall (Bool.not_eq_true _ ▸ hconnects)
      · intro hne
        dsimp only
        split_ifs
        · exact Function.update_of_ne hne _ _
        · rfl
  | lose hw hthread htask hret =>
      exact follows_of_ne rfl rfl (by rw [hthread]; exact ⟨nofun, nofun⟩) ⟨nofun, nofun⟩
  | answer hw hthread htask hret =>
      refine follows_of_ne rfl rfl (by rw [hthread]; exact ⟨nofun, nofun⟩) ?_
      split_ifs <;> exact ⟨nofun, nofun⟩
  | lockStats hw hthread hlock =>
      exact follows_of_ne rfl rfl (by rw [hthread]; exact ⟨nofun, nofun⟩) ⟨nofun, nofun⟩
  | unlockStats hw hthread hunlock =>
      exact follows_of_ne rfl rfl (by rw [hthread]; exact ⟨nofun, nofun⟩) ⟨nofun, nofun⟩
  | _ => exact Or.inl ⟨rfl, rfl⟩

/-- A worker that has ended stays so. -/
theorem Step.finished (h : Step n s a t) (hw : s.workers.threads w = .finished) :
  t.workers.threads w = .finished
  := by
  rcases h.follows w with ⟨hsame, -⟩ | ⟨hne, -⟩
  · rw [hsame, hw]
  · exact absurd hw hne

namespace Synced

theorem init {calls : List MainCall} {heap : ℕ → Node} :
  Synced n (Program.init n calls heap)
  := by
  constructor
  case main => trivial
  case complete => rfl
  case woken => exact nofun
  case covers => exact CondVar.Covers.init
  case joined => trivial
  case unconnected => exact fun _ _ => rfl
  case finished => exact nofun

theorem main_step (h : MainFits s.queue s.main) (hqueue : s.queue.Represents l)
    (hstep : Step n s a t) :
  MainFits t.queue t.main
  := by
  cases hstep with
  | malloc hmain hfree => exact Function.update_self _ _ _
  | full hmain hfull =>
      rw [hmain] at h
      exact ⟨h, hfull⟩
  | busy hmain hlen =>
      intro hzero
      dsimp only at hzero
      rw [hzero] at hlen
      exact absurd hlen (lt_irrefl 0)
  | take hw hthread htask hresult =>
      obtain ⟨l', rfl⟩ := hqueue.eq_cons_of_fetchResult hresult
      have howner := hqueue.queued.mp List.mem_cons_self
      exact h.signal fun he => Submit.update_owner_of_ne he (by rw [howner]; nofun)
  | returns htask howner hthread =>
      exact h.mono (fun he => Submit.update_owner_of_ne he (by rw [howner]; nofun)) rfl rfl
  | outOfMemory hmain => exact h.mono id rfl rfl
  | nullHead hw hthread htask hresult => exact h.mono id rfl rfl
  | wakeMain hmain =>
      rw [hmain] at h
      exact MainFits.signal h id
  | _ => first | exact h | trivial

theorem complete_step (h : s.queue.workComplete = s.main.closing) (hstep : Step n s a t) :
  t.queue.workComplete = t.main.closing
  := by
  cases hstep with
  | take hw hthread htask hresult => exact h.trans s.main.closing_signal.symm
  | complete hmain => rfl
  | _ => first | exact h | (rw [‹s.main = _›] at h; exact h)

theorem woken_step (h : s.main.closed = true → s.notEmpty.waiting = ∅)
    (hcomplete : s.queue.workComplete = s.main.closing) (hstep : Step n s a t) :
  t.main.closed = true → t.notEmpty.waiting = ∅
  := by
  cases hstep with
  | append hmain howner hfull hsignal => exact nofun
  | broadcast hmain => exact fun _ => rfl
  | joined hmain hi => exact fun _ => h (by rw [hmain]; rfl)
  | sleep hw hthread htask hresult =>
      -- nobody waits when the work is complete
      intro hclosed
      obtain ⟨-, hnull⟩ := Submit.qLen_eq_zero_of_fetchResult (Or.inl hresult)
      have hclosing : s.main.closing = true := by
        dsimp only at hclosed
        cases hmain : s.main <;> rw [hmain] at hclosed <;> cases hclosed <;> rfl
      rw [hresult, hcomplete, hclosing] at hnull
      cases hnull.mp rfl
  | take hw hthread htask hresult => exact fun hclosed => h (s.main.closed_signal ▸ hclosed)
  | wake hw =>
      intro hclosed
      rw [h hclosed] at hw
      cases Finset.notMem_empty _ hw
  | _ => first | exact h | (rw [‹s.main = _›] at h; exact h)

theorem covers_step (h : s.notEmpty.Covers s.queue.qLen.toNat) (hqueue : s.queue.Represents l)
    (hstep : Step n s a t) :
  t.notEmpty.Covers t.queue.qLen.toNat
  := by
  cases hstep with
  | append hmain howner hfull hsignal =>
      have hlen := (hqueue.appendNode howner hfull).length
      rw [List.length_append, ← hqueue.length] at hlen
      dsimp only
      rw [hlen]
      exact h.signal hsignal
  | broadcast hmain => exact CondVar.Covers.broadcast
  | sleep hw hthread htask hresult =>
      obtain ⟨hlen, -⟩ := Submit.qLen_eq_zero_of_fetchResult (Or.inl hresult)
      dsimp only
      rw [hlen]
      exact CondVar.Covers.zero
  | null hw hthread htask hresult =>
      obtain ⟨hlen, -⟩ := Submit.qLen_eq_zero_of_fetchResult (Or.inr hresult)
      dsimp only
      rw [hlen]
      exact CondVar.Covers.zero
  | take hw hthread htask hresult =>
      obtain ⟨l', rfl⟩ := hqueue.eq_cons_of_fetchResult hresult
      have hlen := hqueue.takeNode.length
      rw [hqueue.length] at h
      dsimp only
      rw [hlen]
      exact h.leave
  | wake hw => exact h.wake
  | _ => exact h

theorem joined_step (h : Joined n s.workers.threads s.main) (hstep : Step n s a t) :
  Joined n t.workers.threads t.main
  := by
  replace h := h.mono hstep.finished
  cases hstep with
  | broadcast hmain => exact fun j hj => absurd hj (Nat.not_lt_zero j)
  | join hmain hi hthread =>
      rw [hmain] at h
      intro j hj
      rcases Nat.lt_succ_iff_lt_or_eq.mp hj with hj | rfl
      · exact h j hj
      · exact hthread
  | joined hmain hi =>
      rw [hmain] at h
      exact fun j hj => h j (hj.trans_le (Nat.le_of_not_lt hi))
  | take hw hthread htask hresult => exact joined_signal.mpr h
  | _ => first | exact h | trivial

theorem unconnected_step (h : ∀ w, s.workers.threads w = .starting → s.connected w = false)
    (hstep : Step n s a t) :
  ∀ w, t.workers.threads w = .starting → t.connected w = false
  := by
  intro w hw
  rcases hstep.follows w with ⟨hthread, hconnected⟩ | ⟨-, hne, -⟩
  · rw [hconnected]
    exact h w (hthread ▸ hw)
  · exact absurd hw hne

/-- When a worker has ended although it had a connection, the queue stays empty. -/
theorem empty_step (h : Synced n s) (hqueue : s.queue.Represents l) (hstep : Step n s a t)
    (hcomplete : s.queue.workComplete = true) (hlen : s.queue.qLen = 0) :
  t.queue.workComplete = true ∧ t.queue.qLen = 0
  := by
  cases hstep with
  | append hmain howner hfull hsignal =>
      rw [h.complete, hmain] at hcomplete
      cases hcomplete
  | complete hmain => exact ⟨rfl, hlen⟩
  | take hw hthread htask hresult =>
      obtain ⟨l', rfl⟩ := hqueue.eq_cons_of_fetchResult hresult
      have hlength := hqueue.length
      rw [hlen] at hlength
      cases hlength
  | _ => exact ⟨hcomplete, hlen⟩

theorem finished_step (h : Synced n s) (hqueue : s.queue.Represents l) (hstep : Step n s a t) :
  ∀ w, t.workers.threads w = .finished → t.connected w = true →
    t.queue.workComplete = true ∧ t.queue.qLen = 0
  := by
  intro w hw hconnected
  have hempty : s.queue.workComplete = true ∧ s.queue.qLen = 0 := by
    rcases hstep.follows w with ⟨hthread, hsame⟩ | ⟨-, -, hfinished, -⟩
    · exact h.finished w (hthread ▸ hw) (hsame ▸ hconnected)
    · rcases hfinished hw with hresult | ⟨hstarting, hsame⟩
      · obtain ⟨hlen, hnull⟩ := Submit.qLen_eq_zero_of_fetchResult (Or.inr hresult)
        exact ⟨hnull.mpr hresult, hlen⟩
      · rw [hsame, h.unconnected w hstarting] at hconnected
        cases hconnected
  exact h.empty_step hqueue hstep hempty.1 hempty.2

/-- Every step keeps what the threads know. -/
theorem step (h : Synced n s) (hqueue : s.queue.Represents l) (hstep : Step n s a t) :
  Synced n t
  := by
  constructor
  case main => exact main_step h.main hqueue hstep
  case complete => exact complete_step h.complete hstep
  case woken => exact woken_step h.woken h.complete hstep
  case covers => exact covers_step h.covers hqueue hstep
  case joined => exact joined_step h.joined hstep
  case unconnected => exact unconnected_step h.unconnected hstep
  case finished => exact h.finished_step hqueue hstep

end Synced

/-! ### Every run -/

/-- Only finitely many addresses are in use. -/
def HasMemory (s : Program) : Prop := ∃ b, ∀ e, b ≤ e → s.queue.owner e = .free

theorem HasMemory.step (h : s.HasMemory) (hstep : Step n s a t) :
  t.HasMemory
  := by
  have hupdate : ∀ e o, ∃ b, ∀ x, b ≤ x → Function.update s.queue.owner e o x = .free := by
    intro e o
    obtain ⟨b, hb⟩ := h
    use max b (e + 1)
    intro x hx
    rw [Function.update_of_ne (by omega)]
    exact hb x (by omega)
  cases hstep with
  | malloc hmain hfree => exact hupdate _ _
  | append hmain howner hfull hsignal => exact hupdate _ _
  | take hw hthread htask hresult => exact hupdate _ _
  | returns htask howner hthread => exact hupdate _ _
  | _ => exact h

/-- What holds in every state of a run. -/
structure Sound (n : ℕ) (s : Program) : Prop where
  queue : ∃ l, s.queue.Represents l
  numbered : s.Numbered
  placed : Placed n s
  synced : Synced n s
  held : s.workers.Held
  memory : s.HasMemory

variable {calls : List MainCall} {heap : ℕ → Node}

theorem sound_of_reach (h : Reach (Program.step n) anyStep (init n calls heap) s) :
  Sound n s
  := by
  have hqueue := Submit.exists_represents (reach_queue h)
  have hheld := Workers.held_of_reach (reach_workers h)
  suffices hothers : s.Numbered ∧ Placed n s ∧ Synced n s ∧ s.HasMemory from
    ⟨hqueue, hothers.1, hothers.2.1, hothers.2.2.1, hheld, hothers.2.2.2⟩
  clear hqueue hheld
  induction h with
  | refl => exact ⟨Numbered.init, Placed.init, Synced.init, ⟨0, fun _ _ => rfl⟩⟩
  | tail a hreach _ hstep ih =>
      obtain ⟨hnumbered, hplaced, hsynced, hmemory⟩ := ih
      obtain ⟨l, hl⟩ := Submit.exists_represents (reach_queue hreach)
      have hstep := Step.of_step hstep
      exact ⟨hnumbered.step hstep, hplaced.step hnumbered hl hstep, hsynced.step hl hstep,
        hmemory.step hstep⟩

/-! ### Something can be done -/

/-- A worker with the lock of the statistics can go on. -/
theorem exists_step_of_counting (h : Sound n s) (hthread : s.workers.threads w = .counting) :
  ∃ a t, a.disturbed = false ∧ Step n s a t
  := by
  have hw : w < n := h.placed.started w (by rw [hthread]; nofun)
  obtain ⟨rest, hholder⟩ := (h.held w).mp hthread
  cases rest with
  | nil => exact ⟨_, _, rfl, .unlockStats hw hthread (Guarded.unlock_eq_some.mpr ⟨hholder, rfl⟩)⟩
  | cons k rest =>
      obtain ⟨stats, hstats⟩ := Guarded.exists_next exec hholder
      exact ⟨_, _, rfl, .execStats hw hthread hstats⟩

/-- A worker with a command is at work on a tile. -/
theorem Placed.exists_tile {cmd : Protocol} (h : Placed n s)
    (hcommand : (s.workers.threads w).command? = some cmd) :
  ∃ number, s.tasks w = .tile number
  := by
  have hfits := h.fits w
  cases htask : s.tasks w with
  | nothing =>
      rw [htask, Fits, hcommand] at hfits
      cases hfits
  | node e number =>
      rw [htask] at hfits
      rw [hfits.1] at hcommand
      cases hcommand
  | tile number => exact ⟨number, rfl⟩

/-- A worker that does not wait at the condition variable and has not ended can go on, unless it
needs the lock of the statistics and another worker that has it can go on. -/
theorem exists_step_of_worker (h : Sound n s) (hw : w < n)
    (hne : s.workers.threads w ≠ .finished) (hwaiting : w ∉ s.notEmpty.waiting) :
  ∃ a t, a.disturbed = false ∧ Step n s a t
  := by
  cases hthread : s.workers.threads w with
  | starting =>
      exact ⟨.work (.call w (.makeConnection true)), _, rfl,
        .call hw trivial (by rw [hthread]; rfl)⟩
  | idle =>
      cases htask : s.tasks w with
      | nothing =>
          cases hresult : s.queue.fetchResult with
          | wait => exact ⟨_, _, rfl, .sleep ⟨hw, hwaiting⟩ hthread htask hresult⟩
          | null => exact ⟨_, _, rfl, .null ⟨hw, hwaiting⟩ hthread htask hresult⟩
          | exit => exact ⟨_, _, rfl, .nullHead ⟨hw, hwaiting⟩ hthread htask hresult⟩
          | node e => exact ⟨_, _, rfl, .take ⟨hw, hwaiting⟩ hthread htask hresult⟩
      | node e number =>
          have hfits := h.placed.fits w
          rw [htask] at hfits
          exact ⟨.returns w Submit.sampleMemory, _, rfl, .returns htask hfits.2 hthread⟩
      | tile number =>
          have hfits := h.placed.fits w
          rw [htask, hthread] at hfits
          obtain ⟨item, old, -, hcommand⟩ := hfits
          cases hcommand
  | calling cmd =>
      exact ⟨.work (.call w (.gettimeofday .epoch)), _, rfl,
        .call hw trivial (by rw [hthread]; rfl)⟩
  | lost cmd =>
      exact ⟨.work (.call w (.makeConnection true)), _, rfl,
        .call hw trivial (by rw [hthread]; rfl)⟩
  | finished => exact absurd hthread hne
  | sending cmd start =>
      exact ⟨.work (.call w .sendCmd), _, rfl, .call hw trivial (by rw [hthread]; rfl)⟩
  | receiving cmd start =>
      have hcommand : (s.workers.threads w).command? = some cmd := by
        rw [hthread]
        rfl
      obtain ⟨number, htask⟩ := h.placed.exists_tile hcommand
      exact ⟨.work (.call w (.recvCmd 1 cmd)), _, rfl,
        .answer hw hthread htask (lt_irrefl 1)⟩
  | done cmd start =>
      exact ⟨.work (.call w (.gettimeofday .epoch)), _, rfl,
        .call hw trivial (by rw [hthread]; rfl)⟩
  | locking cmd start finish =>
      cases hholder : s.workers.stats.holder with
      | none =>
          exact ⟨_, _, rfl, .lockStats hw hthread (Guarded.lock_eq_some.mpr ⟨hholder, rfl⟩)⟩
      | some holder =>
          obtain ⟨w', rest⟩ := holder
          exact exists_step_of_counting h ((h.held w').mpr ⟨rest, hholder⟩)
  | counting => exact exists_step_of_counting h hthread

/-- Every worker has ended because it got no connection, and the main thread waits for one of
them. -/
def Abandoned (n : ℕ) (s : Program) : Prop :=
  (∃ call calls, s.main = .waiting call calls) ∧
    ∀ w < n, s.workers.threads w = .finished ∧ s.connected w = false

/-- When the main thread waits, the queue is not empty. -/
theorem Synced.qLen_ne_zero {call : Locking} (h : Synced n s) (hn : s.queue.qMaxLen ≠ 0)
    (hmain : s.main = .waiting call calls) :
  s.queue.qLen ≠ 0
  := by
  have hfits := h.main
  rw [hmain] at hfits
  cases call with
  | append e => exact hfits.2 ▸ hn
  | waitForEmptyQueue => exact hfits
  | finishWorkers => exact hfits.elim

/-- While the main thread waits, a worker can go on that has not ended, or that has been woken up
for a tile in the queue. -/
theorem exists_step_of_waiting {call : Locking} (h : Sound n s) (hn : s.queue.qMaxLen ≠ 0)
    (hmain : s.main = .waiting call calls) (hw : w < n)
    (hne : s.workers.threads w ≠ .finished) :
  ∃ a t, a.disturbed = false ∧ Step n s a t
  := by
  by_cases hwaiting : w ∈ s.notEmpty.waiting
  · have hpos : 0 < s.queue.qLen.toNat := by
      apply Nat.pos_of_ne_zero
      intro hzero
      exact h.synced.qLen_ne_zero hn hmain (UInt32.toNat_inj.mp hzero)
    obtain ⟨w', hawake⟩ := h.synced.covers.exists_awake hpos hwaiting
    obtain ⟨hw', hthread, -⟩ := h.placed.atVariable w' (Or.inr hawake)
    apply exists_step_of_worker h hw'
    · rw [hthread]
      nofun
    · exact Finset.disjoint_right.mp s.notEmpty.disjoint hawake
  · exact exists_step_of_worker h hw hne hwaiting

/-- The main thread can go on, or a worker that it waits for, unless the workers have abandoned
it. -/
theorem exists_step_of_not_abandoned (h : Sound n s) (hn : s.queue.qMaxLen ≠ 0)
    (hended : s.main ≠ .ended) (habandoned : ¬ s.Abandoned n) :
  ∃ a t, a.disturbed = false ∧ Step n s a t
  := by
  cases hmain : s.main with
  | next calls =>
      cases calls with
      | nil => exact ⟨_, _, rfl, .callFinish hmain⟩
      | cons call calls =>
          cases call with
          | enqueue item =>
              obtain ⟨b, hb⟩ := h.memory
              exact ⟨_, _, rfl, .malloc hmain (hb b le_rfl)⟩
          | waitForEmptyQueue => exact ⟨_, _, rfl, .callWait hmain⟩
  | locking call calls =>
      cases call with
      | append e =>
          by_cases hfull : s.queue.qLen = s.queue.qMaxLen
          · exact ⟨.lock none, _, rfl, .full hmain hfull⟩
          · obtain ⟨u, notEmpty, hsignal⟩ := s.notEmpty.exists_signal
            have howner := h.synced.main
            rw [hmain] at howner
            exact ⟨_, _, rfl, .append hmain howner hfull hsignal⟩
      | waitForEmptyQueue =>
          by_cases hlen : s.queue.qLen > 0
          · exact ⟨.lock none, _, rfl, .busy hmain hlen⟩
          · exact ⟨.lock none, _, rfl, .empty hmain hlen⟩
      | finishWorkers => exact ⟨.lock none, _, rfl, .complete hmain⟩
  | waiting call calls =>
      by_contra hnone
      apply habandoned
      refine ⟨⟨call, calls, hmain⟩, fun w hw => ?_⟩
      have hthread : s.workers.threads w = .finished := by
        by_contra hne
        exact hnone (exists_step_of_waiting h hn hmain hw hne)
      refine ⟨hthread, Bool.eq_false_iff.mpr fun hconnected => ?_⟩
      have hcomplete := (h.synced.finished w hthread hconnected).1
      rw [h.synced.complete, hmain] at hcomplete
      cases hcomplete
  | broadcasting => exact ⟨_, _, rfl, .broadcast hmain⟩
  | joining i =>
      by_cases hi : i < n
      · by_cases hthread : s.workers.threads i = .finished
        · exact ⟨_, _, rfl, .join hmain hi hthread⟩
        · have hwaiting : i ∉ s.notEmpty.waiting := by
            rw [h.synced.woken (by rw [hmain]; rfl)]
            exact Finset.notMem_empty i
          exact exists_step_of_worker h hi hthread hwaiting
      · exact ⟨_, _, rfl, .joined hmain hi⟩
  | ended => exact absurd hmain hended

/-- When the workers have abandoned the main thread, nothing happens any more but that the main
thread is woken up without a signal. -/
theorem disturbed_of_abandoned (h : Sound n s) (habandoned : s.Abandoned n) (hstep : Step n s a t) :
  a.disturbed = true
  := by
  obtain ⟨⟨call, calls, hmain⟩, hworkers⟩ := habandoned
  have hfinished : ∀ w, w < n → s.workers.threads w = .finished := fun w hw => (hworkers w hw).1
  cases hstep with
  | outOfMemory hmain' => rfl
  | wake hw => rfl
  | wakeMain hmain' => rfl
  | sleep hw hthread htask hresult => cases hthread.symm.trans (hfinished _ hw.1)
  | null hw hthread htask hresult => cases hthread.symm.trans (hfinished _ hw.1)
  | nullHead hw hthread htask hresult => cases hthread.symm.trans (hfinished _ hw.1)
  | take hw hthread htask hresult => cases hthread.symm.trans (hfinished _ hw.1)
  | returns htask howner hthread =>
      have hw := h.placed.started _ (by rw [hthread]; nofun)
      cases hthread.symm.trans (hfinished _ hw)
  | call hw hc hcall => exact absurd (hfinished _ hw) (Worker.ne_of_call hc hcall).2
  | lose hw hthread htask hret => cases hthread.symm.trans (hfinished _ hw)
  | answer hw hthread htask hret => cases hthread.symm.trans (hfinished _ hw)
  | lockStats hw hthread hlock => cases hthread.symm.trans (hfinished _ hw)
  | execStats hw hthread hnext => cases hthread.symm.trans (hfinished _ hw)
  | unlockStats hw hthread hunlock => cases hthread.symm.trans (hfinished _ hw)
  | _ => cases hmain.symm.trans ‹s.main = _›

/-- The size of the queue does not change. -/
theorem Step.qMaxLen (h : Step n s a t) :
  t.queue.qMaxLen = s.queue.qMaxLen
  := by
  cases h <;> rfl

theorem qMaxLen_of_reach (h : Reach (Program.step n) anyStep (init n calls heap) s) :
  s.queue.qMaxLen = UInt32.ofNat n
  := by
  apply h.invariant (I := fun s => s.queue.qMaxLen = UInt32.ofNat n)
  · rfl
  · intro s a t hs _ hstep
    rw [(Step.of_step hstep).qMaxLen, hs]

/-- In every run of a program with at least one worker, as long as it has not ended, something can
be done that is not a disturbance, except in one case: every worker has ended because it got no
connection, and the main thread waits for a place in the queue or for an empty queue. -/
theorem stuck_iff_abandoned (hn : 0 < n) (hlt : n < 2 ^ 31)
    (h : Reach (Program.step n) anyStep (init n calls heap) s) (hrunning : s.Running)
    (hended : s.main ≠ .ended) :
  (∀ a t, Program.step n s a = some t → a.disturbed = true) ↔ s.Abandoned n
  := by
  have hsound := sound_of_reach h
  have hmax : s.queue.qMaxLen ≠ 0 := by
    rw [qMaxLen_of_reach h, ne_eq, ← UInt32.toNat_inj,
      UInt32.toNat_ofNat_of_lt' (hlt.trans (by decide))]
    exact hn.ne'
  constructor
  · intro hstuck
    by_contra habandoned
    obtain ⟨a, t, ha, hstep⟩ := exists_step_of_not_abandoned hsound hmax hended habandoned
    rw [hstuck a t (hstep.step hrunning)] at ha
    cases ha
  · intro habandoned a t hstep
    exact disturbed_of_abandoned hsound habandoned (Step.of_step hstep)

/-- The only worker gets no connection, and the main thread has two tiles. -/
def sampleAbandoned : List ProgramStep :=
  [.work (.call 0 (.makeConnection false)), .malloc (some 7), .lock none, .malloc (some 3),
    .lock none]

/-- The main thread waits. -/
def isWaiting (s : Program) : Bool :=
  match s.main with
  | .waiting _ _ => true
  | _ => false

/-- The worker has ended without a connection. -/
def isUnconnected (s : Program) (w : ℕ) : Bool :=
  match s.workers.threads w with
  | .finished => !s.connected w
  | _ => false

/-- The main thread then waits for ever. -/
theorem stuck_iff_abandoned_sample :
  ∃ s, run (Program.step 1) (fun _ _ => true)
      (init 1 [.enqueue (Submit.sampleTile 3), .enqueue (Submit.sampleTile 4)]
        fun _ => ⟨Submit.sampleTile 0, none⟩) sampleAbandoned = some s ∧
    s.Abandoned 1 ∧ ∀ a t, Program.step 1 s a = some t → a.disturbed = true
  := by
  have hrun : (run (Program.step 1) (fun _ _ => true)
      (init 1 [.enqueue (Submit.sampleTile 3), .enqueue (Submit.sampleTile 4)]
        fun _ => ⟨Submit.sampleTile 0, none⟩) sampleAbandoned).map (fun s =>
          (s.isWaiting, s.isUnconnected 0, s.queue.exited, s.workers.stats.failure)) =
            some (true, true, none, none) := by
    decide +kernel
  obtain ⟨s, hs, hmap⟩ := Option.map_eq_some_iff.mp hrun
  obtain ⟨hwaiting, hmap⟩ := Prod.mk.inj hmap
  obtain ⟨hunconnected, hrunning⟩ := Prod.mk.inj hmap
  obtain ⟨call, calls, hmain⟩ : ∃ call calls, s.main = .waiting call calls := by
    unfold isWaiting at hwaiting
    split at hwaiting
    · exact ⟨_, _, ‹_›⟩
    · cases hwaiting
  have habandoned : s.Abandoned 1 := by
    refine ⟨⟨call, calls, hmain⟩, fun w hw => ?_⟩
    obtain rfl : w = 0 := Nat.lt_one_iff.mp hw
    unfold isUnconnected at hunconnected
    split at hunconnected
    · exact ⟨‹_›, (Bool.not_eq_true' _).mp hunconnected⟩
    · cases hunconnected
  refine ⟨s, hs, habandoned, ?_⟩
  apply (stuck_iff_abandoned Nat.zero_lt_one (by decide) (reach_of_run hs fun _ _ _ => trivial)
    (Prod.mk.inj hrunning) _).mpr habandoned
  rw [hmain]
  nofun

end Program

end SubmitQueue
