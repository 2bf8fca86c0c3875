import ModTile.SubmitProgram.Basic

/-!
# Where the threads of a submitting program are

What holds of the threads in every run: a worker has a command exactly when it has taken a tile
and has no answer yet, the threads at the condition variable are in `fetch` and have nothing, and
the main thread waits for what it is told by the queue.

The numbers of the tiles say that no tile is lost and none is handled twice: every tile that has
been taken has an answer or is in the hands of one worker.
-/

open Transition

namespace SubmitQueue

/-- The command of a worker that it has not got an answer for. -/
def Worker.command? : Worker → Option Protocol
  | .calling cmd => some cmd
  | .lost cmd => some cmd
  | .sending cmd _ => some cmd
  | .receiving cmd _ => some cmd
  | _ => none

/-- The number of the tile that a worker has taken. -/
def Task.number? : Task → Option ℕ
  | .nothing => none
  | .node _ number => some number
  | .tile number => some number

/-- Other calls than those for the next tile and for the answer leave the command as it is. -/
theorem Worker.command?_call {worker worker' : Worker} {c : Call} (hc : c.IsOther)
    (h : worker.call c = some worker') :
  worker'.command? = worker.command?
  := by
  cases worker <;> cases c <;> cases hc <;> cases h <;> try rfl
  all_goals
    rename_i connected
    cases connected <;> rfl

/-- Such a call is not made by a worker that is before `fetch` or at the end. -/
theorem Worker.ne_of_call {worker worker' : Worker} {c : Call} (hc : c.IsOther)
    (h : worker.call c = some worker') :
  worker ≠ .idle ∧ worker ≠ .finished
  := by
  constructor
  · rintro rfl
    cases c <;> cases hc <;> cases h
  · rintro rfl
    cases c <;> cases hc <;> cases h

/-- A node that a call of `fetch` takes is the first one of the queue. -/
theorem Submit.Represents.eq_cons_of_fetchResult {s : Submit} {l : List ℕ} {e : ℕ}
    (h : s.Represents l) (hresult : s.fetchResult = .node e) :
  ∃ l', l = e :: l'
  := by
  rw [h.fetchResult_eq] at hresult
  cases l with
  | nil =>
      dsimp only at hresult
      split_ifs at hresult
  | cons e' l =>
      obtain rfl := FetchResult.node.inj hresult
      exact ⟨l, rfl⟩

/-- A call of `fetch` that does not take a node finds the queue empty. -/
theorem Submit.qLen_eq_zero_of_fetchResult {s : Submit}
    (h : s.fetchResult = .wait ∨ s.fetchResult = .null) :
  s.qLen = 0 ∧ (s.workComplete = true ↔ s.fetchResult = .null)
  := by
  rw [fetchResult] at h ⊢
  split_ifs at h ⊢ with hlen hcomplete
  · exact ⟨hlen, iff_of_true hcomplete rfl⟩
  · exact ⟨hlen, iff_of_false hcomplete (by simp)⟩
  · split at h <;> simp at h

namespace Program

variable {n : ℕ} {s t : Program} {a : ProgramStep} {w : ℕ}

/-! ### The numbers of the tiles -/

/-- The numbers of the tiles with an answer. -/
def answered (s : Program) : List ℕ := s.answers.map Answer.number

/-- Every tile that has been taken has one answer, or is in the hands of one worker. -/
structure Numbered (s : Program) : Prop where
  taken : ∀ {w k}, (s.tasks w).number? = some k → k < s.queue.fetched.length ∧ k ∉ s.answered
  once : ∀ {w w' k}, (s.tasks w).number? = some k → (s.tasks w').number? = some k → w = w'
  answered : ∀ k ∈ s.answered, k < s.queue.fetched.length
  answeredOnce : s.answered.Nodup
  complete : ∀ k < s.queue.fetched.length, k ∈ s.answered ∨ ∃ w, (s.tasks w).number? = some k

theorem number?_update {tasks : ℕ → Task} {task : Task} {w' k : ℕ} :
  ((Function.update tasks w task) w').number? = some k ↔
    w' = w ∧ task.number? = some k ∨ w' ≠ w ∧ (tasks w').number? = some k
  := by
  rw [Function.update_apply]
  split_ifs with hw
  · simp [hw]
  · simp [hw]

namespace Numbered

theorem init {calls : List MainCall} {heap : ℕ → Node} :
  (Program.init n calls heap).Numbered
  := by
  constructor <;> simp [Program.init, Task.number?, Program.answered, Submit.init]

/-- A worker takes the next tile. -/
theorem take {queue : Submit} {notEmpty : CondVar ℕ} {main : MainThread} {item : QItem} {e : ℕ}
    (h : s.Numbered) (htask : s.tasks w = .nothing)
    (hfetched : queue.fetched = s.queue.fetched ++ [item]) :
  Numbered
    { s with
      queue := queue
      notEmpty := notEmpty
      main := main
      tasks := Function.update s.tasks w (.node e s.queue.fetched.length) }
  := by
  have hlength : queue.fetched.length = s.queue.fetched.length + 1 := by
    rw [hfetched, List.length_append]
    rfl
  have hnew : s.queue.fetched.length ∉ s.answered := fun hmem =>
    absurd (h.answered _ hmem) (lt_irrefl _)
  constructor
  case taken =>
    intro w' k hk
    dsimp only at hk ⊢
    rw [hlength]
    rcases number?_update.mp hk with ⟨-, hk⟩ | ⟨-, hk⟩
    · obtain rfl := Option.some.inj hk
      exact ⟨Nat.lt_succ_self _, hnew⟩
    · obtain ⟨hlt, hmem⟩ := h.taken hk
      exact ⟨Nat.lt_succ_of_lt hlt, hmem⟩
  case once =>
    intro w₁ w₂ k h₁ h₂
    rcases number?_update.mp h₁ with ⟨hw₁, hk₁⟩ | ⟨-, hk₁⟩
    · obtain rfl := Option.some.inj hk₁
      rcases number?_update.mp h₂ with ⟨hw₂, -⟩ | ⟨-, hk₂⟩
      · exact hw₁.trans hw₂.symm
      · exact absurd (h.taken hk₂).1 (lt_irrefl _)
    · rcases number?_update.mp h₂ with ⟨-, hk₂⟩ | ⟨-, hk₂⟩
      · obtain rfl := Option.some.inj hk₂
        exact absurd (h.taken hk₁).1 (lt_irrefl _)
      · exact h.once hk₁ hk₂
  case answered =>
    intro k hk
    dsimp only
    rw [hlength]
    exact Nat.lt_succ_of_lt (h.answered k hk)
  case answeredOnce => exact h.answeredOnce
  case complete =>
    intro k hk
    dsimp only at hk ⊢
    rw [hlength] at hk
    rcases Nat.lt_succ_iff_lt_or_eq.mp hk with hk | rfl
    · rcases h.complete k hk with hmem | ⟨w', hw'⟩
      · exact Or.inl hmem
      · right
        use w'
        apply number?_update.mpr
        right
        refine ⟨?_, hw'⟩
        rintro rfl
        rw [htask] at hw'
        cases hw'
    · right
      use w
      exact number?_update.mpr (Or.inl ⟨rfl, rfl⟩)

/-- The worker makes the command for its tile. -/
theorem returns {queue : Submit} {workers : Workers} {e k : ℕ} (h : s.Numbered)
    (htask : s.tasks w = .node e k) (hfetched : queue.fetched = s.queue.fetched) :
  Numbered
    { s with
      queue := queue
      workers := workers
      tasks := Function.update s.tasks w (.tile k) }
  := by
  have hsame : ∀ w' k', ((Function.update s.tasks w (.tile k)) w').number? = some k' ↔
      (s.tasks w').number? = some k' := by
    intro w' k'
    rw [number?_update]
    constructor
    · rintro (⟨rfl, hk⟩ | ⟨-, hk⟩)
      · rw [htask]
        exact hk
      · exact hk
    · intro hk
      by_cases hw : w' = w
      · subst hw
        rw [htask] at hk
        exact Or.inl ⟨rfl, hk⟩
      · exact Or.inr ⟨hw, hk⟩
  constructor
  case taken =>
    intro w' k' hk
    dsimp only at hk ⊢
    rw [hfetched]
    exact h.taken ((hsame w' k').mp hk)
  case once =>
    intro w₁ w₂ k' h₁ h₂
    exact h.once ((hsame w₁ k').mp h₁) ((hsame w₂ k').mp h₂)
  case answered =>
    intro k' hk
    dsimp only
    rw [hfetched]
    exact h.answered k' hk
  case answeredOnce => exact h.answeredOnce
  case complete =>
    intro k' hk
    dsimp only at hk ⊢
    rw [hfetched] at hk
    rcases h.complete k' hk with hmem | ⟨w', hw'⟩
    · exact Or.inl hmem
    · exact Or.inr ⟨w', (hsame w' k').mpr hw'⟩

/-- The worker gets the answer for its tile. -/
theorem answer {workers : Workers} {cmd rsp : Protocol} {k : ℕ} (h : s.Numbered)
    (htask : s.tasks w = .tile k) :
  Numbered
    { s with
      workers := workers
      tasks := Function.update s.tasks w .nothing
      answers := s.answers ++ [⟨k, cmd, rsp⟩] }
  := by
  have hk : (s.tasks w).number? = some k := by
    rw [htask]
    rfl
  obtain ⟨hlt, hnew⟩ := h.taken hk
  have hanswered : (s.answers ++ [(⟨k, cmd, rsp⟩ : Answer)]).map Answer.number =
      s.answered ++ [k] := List.map_append
  have hother : ∀ {w' k'}, ((Function.update s.tasks w .nothing) w').number? = some k' →
      w' ≠ w ∧ (s.tasks w').number? = some k' := by
    intro w' k' hk'
    rcases number?_update.mp hk' with ⟨-, hk'⟩ | hk'
    · cases hk'
    · exact hk'
  constructor
  case taken =>
    intro w' k' hk'
    obtain ⟨hw', hold⟩ := hother hk'
    obtain ⟨hlt', hmem⟩ := h.taken hold
    refine ⟨hlt', ?_⟩
    rw [Program.answered, hanswered, List.mem_append, List.mem_singleton]
    rintro (hmem' | rfl)
    · exact hmem hmem'
    · exact hw' (h.once hold hk)
  case once =>
    intro w₁ w₂ k' h₁ h₂
    exact h.once (hother h₁).2 (hother h₂).2
  case answered =>
    intro k' hk'
    rw [Program.answered, hanswered, List.mem_append, List.mem_singleton] at hk'
    rcases hk' with hk' | rfl
    · exact h.answered k' hk'
    · exact hlt
  case answeredOnce =>
    rw [Program.answered, hanswered, ← List.concat_eq_append]
    exact h.answeredOnce.concat hnew
  case complete =>
    intro k' hk'
    rw [Program.answered, hanswered, List.mem_append, List.mem_singleton]
    rcases h.complete k' hk' with hmem | ⟨w', hw'⟩
    · exact Or.inl (Or.inl hmem)
    · by_cases hw : w' = w
      · subst hw
        rw [hk] at hw'
        exact Or.inl (Or.inr (Option.some.inj hw').symm)
      · exact Or.inr ⟨w', number?_update.mpr (Or.inr ⟨hw, hw'⟩)⟩

/-- Every step keeps this. -/
theorem step (h : s.Numbered) (hstep : Step n s a t) :
  t.Numbered
  := by
  cases hstep with
  | take hw hthread htask hresult => exact h.take htask rfl
  | returns htask howner hthread => exact h.returns htask rfl
  | answer hw hthread htask hret => exact h.answer htask
  | _ => exact { h with }

end Numbered

/-! ### The workers -/

/-- What a worker has taken fits to where it is. -/
def Fits (queue : Submit) (worker : Worker) : Task → Prop
  | .nothing => worker.command? = none
  | .node e number => worker = .idle ∧ queue.owner e = .fetched number
  | .tile number => ∃ item old, queue.fetched[number]? = some item ∧
      worker.command? = some (fetchCommand old item)

/-- A change of the queue that leaves what has been taken. -/
structure Keeps (queue queue' : Submit) : Prop where
  owner : ∀ {e k}, queue.owner e = .fetched k → queue'.owner e = .fetched k
  fetched : queue.fetched <+: queue'.fetched

theorem Fits.mono {queue queue' : Submit} {worker : Worker} {task : Task}
    (h : Fits queue worker task) (hkeeps : Keeps queue queue') :
  Fits queue' worker task
  := by
  cases task with
  | nothing => exact h
  | node e number => exact ⟨h.1, hkeeps.owner h.2⟩
  | tile number =>
      obtain ⟨item, old, hitem, hcommand⟩ := h
      obtain ⟨rest, hrest⟩ := hkeeps.fetched
      refine ⟨item, old, ?_, hcommand⟩
      rw [← hrest, List.getElem?_append_left (List.getElem?_eq_some_iff.mp hitem).1]
      exact hitem

/-- Where the workers are. -/
structure Placed (n : ℕ) (s : Program) : Prop where
  fits : ∀ w, Fits s.queue (s.workers.threads w) (s.tasks w)
  atVariable : ∀ w, s.notEmpty.At w →
    w < n ∧ s.workers.threads w = .idle ∧ s.tasks w = .nothing
  started : ∀ w, s.workers.threads w ≠ .starting → w < n

namespace Placed

theorem init {calls : List MainCall} {heap : ℕ → Node} :
  Placed n (Program.init n calls heap)
  := by
  constructor <;> simp [Program.init, Fits, Worker.command?, Workers.init, CondVar.init, CondVar.At]

/-- The main thread does something, and the queue keeps what has been taken. -/
theorem main {queue : Submit} {notEmpty : CondVar ℕ} {main : MainThread} (h : Placed n s)
    (hkeeps : Keeps s.queue queue)
    (hat : ∀ w, notEmpty.At w → s.notEmpty.At w) :
  Placed n { s with queue := queue, notEmpty := notEmpty, main := main }
  := by
  constructor
  case fits => exact fun w => (h.fits w).mono hkeeps
  case atVariable => exact fun w hw => h.atVariable w (hat w hw)
  case started => exact h.started

/-- A worker that is not or no longer at the condition variable gets to another point. -/
theorem worker {queue : Submit} {notEmpty : CondVar ℕ} {main : MainThread} {workers : Workers}
    {worker : Worker} {task : Task} {connected : ℕ → Bool} {answers : List Answer}
    (h : Placed n s) (hother : ∀ w', w' ≠ w → Fits queue (s.workers.threads w') (s.tasks w'))
    (hfits : Fits queue worker task) (hw : w < n)
    (hnot : ¬ notEmpty.At w) (hat : ∀ w, notEmpty.At w → s.notEmpty.At w)
    (hworkers : workers.threads = Function.update s.workers.threads w worker) :
  Placed n
    { queue := queue
      notEmpty := notEmpty
      main := main
      workers := workers
      tasks := Function.update s.tasks w task
      connected := connected
      answers := answers }
  := by
  constructor
  case fits =>
    intro w'
    dsimp only
    rw [hworkers]
    by_cases hw' : w' = w
    · subst hw'
      rw [Function.update_self, Function.update_self]
      exact hfits
    · rw [Function.update_of_ne hw', Function.update_of_ne hw']
      exact hother w' hw'
  case atVariable =>
    intro w' hw'
    have hne : w' ≠ w := by
      rintro rfl
      exact hnot hw'
    dsimp only
    rw [hworkers, Function.update_of_ne hne, Function.update_of_ne hne]
    exact h.atVariable w' (hat w' hw')
  case started =>
    intro w' hw'
    dsimp only at hw'
    by_cases hne : w' = w
    · exact hne ▸ hw
    · rw [hworkers, Function.update_of_ne hne] at hw'
      exact h.started w' hw'

/-- The same for a worker that has the same tile as before. -/
theorem worker_of_task {notEmpty : CondVar ℕ} {workers : Workers} {worker : Worker}
    {connected : ℕ → Bool} (h : Placed n s) (hfits : Fits s.queue worker (s.tasks w)) (hw : w < n)
    (hnot : ¬ notEmpty.At w) (hat : ∀ w, notEmpty.At w → s.notEmpty.At w)
    (hworkers : workers.threads = Function.update s.workers.threads w worker) :
  Placed n { s with notEmpty := notEmpty, workers := workers, connected := connected }
  := by
  have hplaced : Placed n
      { s with
        notEmpty := notEmpty
        workers := workers
        tasks := Function.update s.tasks w (s.tasks w)
        connected := connected } :=
    h.worker (fun w' _ => h.fits w') hfits hw hnot hat hworkers
  rw [Function.update_eq_self] at hplaced
  exact hplaced

/-- A worker outside of `fetch` is not at the condition variable. -/
theorem not_at (h : Placed n s) (hne : s.workers.threads w ≠ .idle ∨ s.tasks w ≠ .nothing) :
  ¬ s.notEmpty.At w
  := by
  intro hat
  obtain ⟨-, hthread, htask⟩ := h.atVariable w hat
  exact hne.elim (absurd hthread) (absurd htask)

/-- A worker without a command that has not a node either has nothing. -/
theorem task_eq_nothing (h : Placed n s) (hcommand : (s.workers.threads w).command? = none)
    (hne : s.workers.threads w ≠ .idle) :
  s.tasks w = .nothing
  := by
  have hfits := h.fits w
  cases htask : s.tasks w with
  | nothing => rfl
  | node e number =>
      rw [htask] at hfits
      exact absurd hfits.1 hne
  | tile number =>
      rw [htask] at hfits
      obtain ⟨item, old, -, hcmd⟩ := hfits
      rw [hcommand] at hcmd
      cases hcmd

/-- After the worker `w` has made the command of its node, the other nodes are as before. -/
theorem fits_returnCommand {e number number' : ℕ} {old : Protocol} {w' : ℕ} (h : Placed n s)
    (hnumbered : s.Numbered) (htask : s.tasks w = .node e number) (hne : w' ≠ w) :
  Fits (s.queue.returnCommand e number' old) (s.workers.threads w') (s.tasks w')
  := by
  have hfits := h.fits w
  have hfits' := h.fits w'
  rw [htask] at hfits
  cases htask' : s.tasks w' with
  | nothing =>
      rw [htask'] at hfits'
      exact hfits'
  | tile k =>
      rw [htask'] at hfits'
      exact hfits'
  | node e' k =>
      rw [htask'] at hfits'
      refine ⟨hfits'.1, ?_⟩
      have hnode : e' ≠ e := by
        rintro rfl
        have hk : k = number := Owner.fetched.inj (hfits'.2.symm.trans hfits.2)
        apply hne
        apply hnumbered.once (k := number)
        · rw [htask', hk]
          rfl
        · rw [htask]
          rfl
      exact (Function.update_of_ne hnode _ _).trans hfits'.2

/-- Every step keeps this. -/
theorem step {l : List ℕ} (h : Placed n s) (hnumbered : s.Numbered)
    (hqueue : s.queue.Represents l) (hstep : Step n s a t) :
  Placed n t
  := by
  cases hstep with
  | outOfMemory hmain => exact h.main ⟨id, List.prefix_rfl⟩ fun _ => id
  | malloc hmain hfree =>
      apply h.main _ fun _ => id
      exact ⟨fun he => Submit.update_owner_of_ne he (by rw [hfree]; nofun), List.prefix_rfl⟩
  | append hmain howner hfull hsignal =>
      apply h.main _ fun _ hat => hat.of_signal hsignal
      exact ⟨fun he => Submit.update_owner_of_ne he (by rw [howner]; nofun), List.prefix_rfl⟩
  | complete hmain => exact h.main ⟨id, List.prefix_rfl⟩ fun _ => id
  | broadcast hmain => exact h.main ⟨id, List.prefix_rfl⟩ fun _ => CondVar.At.of_broadcast
  | sleep hw hthread htask hresult =>
      constructor
      case fits => exact h.fits
      case atVariable =>
        intro w' hw'
        rcases hw'.of_wait with rfl | hw'
        · exact ⟨hw.1, hthread, htask⟩
        · exact h.atVariable w' hw'
      case started => exact h.started
  | null hw hthread htask hresult =>
      apply h.worker_of_task _ hw.1 (CondVar.not_at_leave hw.2) (fun _ => CondVar.At.of_leave) rfl
      rw [htask]
      rfl
  | nullHead hw hthread htask hresult => exact h.main ⟨id, List.prefix_rfl⟩ fun _ => id
  | take hw hthread htask hresult =>
      rename_i w e
      obtain ⟨l', rfl⟩ := hqueue.eq_cons_of_fetchResult hresult
      have howner := hqueue.queued.mp List.mem_cons_self
      have hkeeps : Keeps s.queue (s.queue.takeNode e) :=
        ⟨fun he => Submit.update_owner_of_ne he (by rw [howner]; nofun), List.prefix_append _ _⟩
      apply h.worker (fun w' _ => (h.fits w').mono hkeeps) _ hw.1 (CondVar.not_at_leave hw.2)
        (fun _ => CondVar.At.of_leave) (Function.update_eq_self w _).symm
      exact ⟨hthread, Function.update_self _ _ _⟩
  | returns htask howner hthread =>
      rename_i w old e number number'
      have hw : w < n := h.started w (by rw [hthread]; nofun)
      have hfits := h.fits w
      rw [htask] at hfits
      obtain rfl : number' = number := Owner.fetched.inj (howner.symm.trans hfits.2)
      apply h.worker (fun w' hne => h.fits_returnCommand hnumbered htask hne) _ hw
        (h.not_at (Or.inr (by rw [htask]; nofun))) (fun _ => id) rfl
      exact ⟨s.queue.item e, old, (hqueue.taken howner).1, rfl⟩
  | call hw hc hcall =>
      rename_i w c worker
      obtain ⟨hidle, -⟩ := Worker.ne_of_call hc hcall
      have hcommand := Worker.command?_call hc hcall
      apply h.worker_of_task _ hw (h.not_at (Or.inl hidle)) (fun _ => id) rfl
      have hfits := h.fits w
      cases htask : s.tasks w with
      | nothing =>
          rw [htask] at hfits
          exact hcommand.trans hfits
      | node e number =>
          rw [htask] at hfits
          exact absurd hfits.1 hidle
      | tile number =>
          rw [htask] at hfits
          obtain ⟨item, old, hitem, hcmd⟩ := hfits
          exact ⟨item, old, hitem, hcommand.trans hcmd⟩
  | lose hw hthread htask hret =>
      rename_i w ret rsp cmd start number
      apply h.worker_of_task _ hw (h.not_at (Or.inl (by rw [hthread]; nofun))) (fun _ => id) rfl
      have hfits := h.fits w
      rw [htask, hthread] at hfits
      rw [htask]
      exact hfits
  | answer hw hthread htask hret =>
      rename_i w ret rsp cmd start number
      apply h.worker (fun w' _ => h.fits w') _ hw (h.not_at (Or.inl (by rw [hthread]; nofun)))
        (fun _ => id) rfl
      split_ifs <;> rfl
  | lockStats hw hthread hlock =>
      rename_i w cmd start finish stats
      have hidle : s.workers.threads w ≠ .idle := by
        rw [hthread]
        nofun
      apply h.worker_of_task _ hw (h.not_at (Or.inl hidle)) (fun _ => id) rfl
      rw [h.task_eq_nothing (by rw [hthread]; rfl) hidle]
      rfl
  | unlockStats hw hthread hunlock =>
      rename_i w stats
      have hidle : s.workers.threads w ≠ .idle := by
        rw [hthread]
        nofun
      apply h.worker_of_task _ hw (h.not_at (Or.inl hidle)) (fun _ => id) rfl
      rw [h.task_eq_nothing (by rw [hthread]; rfl) hidle]
      rfl
  | wake hw => exact h.main ⟨id, List.prefix_rfl⟩ fun _ hat => hat.of_wake hw
  | _ => exact { h with }

end Placed

end Program

end SubmitQueue
