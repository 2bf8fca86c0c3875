import ModTile.Renderd.Requests

/-!
# One response for each request

A request that has been received is owed an answer by the main thread, or by the item that
was made for it as long as the item has not been freed and its descriptor has not been
cleared.  At most one of them owes the answer to a request, and it is owed only while the
request has not been answered.  As long as the connection of a rendering request is open,
the request has been answered or is owed an answer.
-/

open Linked Transition RenderThread

/-- The request that the main thread deals with. -/
def MainThread.request : MainThread → Option ℕ
  | .received r _ _ => some r
  | .notDone r _ _ => some r
  | .polling => none
  | .closing _ => none

namespace Renderd

/-- The number of messages that have been sent in answer to a request. -/
def answers (s : Renderd) (r : ℕ) : ℕ := s.sent.countP fun e => e.request = r

/-- An answer to the request `r` is owed, by the main thread or by an item. -/
inductive Owes (s : Renderd) (r : ℕ) : Option Ptr → Prop where
  | main (h : s.main.request = some r) : Owes s r none
  | item {p : Ptr} (hp : p ∈ s.allocated) (hfd : (s.heap p).fd ≠ fdInvalid)
      (hr : s.requestOf p = r) : Owes s r (some p)

/-- The connection of a request is open, and the main thread is not about to close it. -/
structure Open (s : Renderd) (rec : Received) : Prop where
  conn : s.conns rec.fd = some rec.conn
  main : s.main ≠ .closing rec.fd

/-- The answers that are owed are those that have not been given. -/
structure Accounted (s : Renderd) : Prop where
  unique : ∀ {r h h'}, Owes s r h → Owes s r h' → h = h'
  unanswered : ∀ {r h}, Owes s r h → s.answers r = 0
  once : ∀ r, s.answers r ≤ 1
  complete : ∀ {r : ℕ} {rec : Received}, s.received[r]? = some rec →
    Protocol.isRender rec.req.cmd → s.Open rec → s.answers r = 0 → ∃ h, Owes s r h

variable {maps : List XmlMapConfig} {s s' : Renderd} {v v' : View} {chains chains' : ℕ → List Ptr}
  {p : Ptr} {m : Heap} {a : ThreadStep} {r : ℕ} {h : Option Ptr} {e : Sent}

theorem accounted_init :
  Accounted (init m)
  := by
  have howes : ∀ {r h}, ¬ Owes (init m) r h := by
    rintro r h ⟨h⟩ <;> simp_all [init, MainThread.request]
  constructor
  case unique =>
    intro r h h' ho
    apply absurd ho howes
  case unanswered =>
    intro r h ho
    apply absurd ho howes
  case once => simp [answers, init]
  case complete => simp [init]

theorem owes_none_iff :
  Owes s r none ↔ s.main.request = some r
  := ⟨fun (.main h) => h, .main⟩

theorem owes_some_iff :
  Owes s r (some p) ↔ p ∈ s.allocated ∧ (s.heap p).fd ≠ fdInvalid ∧ s.requestOf p = r
  := ⟨fun (.item hp hfd hr) => ⟨hp, hfd, hr⟩, fun ⟨hp, hfd, hr⟩ => .item hp hfd hr⟩

/-- What the items owe does not change when the items do not. -/
theorem owes_some_congr (hallocated : s'.allocated = s.allocated) (hqueue : s'.queue = s.queue)
    (hrequestOf : s'.requestOf = s.requestOf) :
  Owes s' r (some p) ↔ Owes s r (some p)
  := by
  rw [owes_some_iff, owes_some_iff, hallocated, heap, hqueue, hrequestOf, heap]

/-- What is owed depends on the request of the main thread, and on the items. -/
theorem owes_congr (hmain : s'.main.request = s.main.request)
    (hitem : ∀ {p}, Owes s' r (some p) ↔ Owes s r (some p)) :
  Owes s' r h ↔ Owes s r h
  := by
  cases h with
  | none => rw [owes_none_iff, owes_none_iff, hmain]
  | some p => apply hitem

/-- A message is counted for the request that it answers. -/
theorem answers_append (hsent : s'.sent = s.sent ++ [e]) :
  s'.answers r = s.answers r + if e.request = r then 1 else 0
  := by
  simp [answers, hsent, List.countP_singleton]

namespace Recorded

/-- What is owed is an answer to a request that has been received. -/
theorem lt_of_owes (hr : Recorded s) (ho : Owes s r h) :
  r < s.received.length
  := by
  have hsome : ∃ rec, s.received[r]? = some rec := by
    cases ho with
    | main h =>
        cases hmain : s.main <;> simp only [hmain, MainThread.request, reduceCtorEq] at h
        · obtain rfl := Option.some.inj h
          obtain ⟨conn, hrec, -⟩ := hr.mainReceived hmain
          exact ⟨_, hrec⟩
        · obtain rfl := Option.some.inj h
          obtain ⟨rec, hrec, -⟩ := hr.mainNotDone hmain
          exact ⟨rec, hrec⟩
    | item hp hfd hreq =>
        obtain ⟨rec, hrec, -⟩ := hr.item hp hfd
        rw [hreq] at hrec
        exact ⟨rec, hrec⟩
  obtain ⟨rec, hrec⟩ := hsome
  apply (List.getElem?_eq_some_iff.mp hrec).1

/-- A request that has not been received has not been answered. -/
theorem answers_eq_zero (hr : Recorded s) (hlen : s.received.length ≤ r) :
  s.answers r = 0
  := by
  apply List.countP_eq_zero.mpr
  intro e he
  obtain ⟨rec, hrec⟩ := hr.sent he
  obtain ⟨hlt, -⟩ := List.getElem?_eq_some_iff.mp hrec
  rw [decide_eq_true_eq]
  omega

end Recorded

namespace Accounted

open RequestQueue

/-- A step that sends nothing and makes nobody owe an answer. -/
theorem of_owes (ha : Accounted s) (hsent : s'.sent = s.sent)
    (howes : ∀ {r h}, Owes s' r h → Owes s r h)
    (hcomplete : ∀ {r : ℕ} {rec : Received}, s'.received[r]? = some rec →
      Protocol.isRender rec.req.cmd → s'.Open rec → s.answers r = 0 → ∃ h, Owes s' r h) :
  Accounted s'
  := by
  have hanswers : ∀ r, s'.answers r = s.answers r := by
    intro r
    rw [answers, hsent, answers]
  constructor
  case unique =>
    intro r h h' ho ho'
    apply ha.unique (howes ho) (howes ho')
  case unanswered =>
    intro r h ho
    rw [hanswers]
    apply ha.unanswered (howes ho)
  case once =>
    intro r
    rw [hanswers]
    apply ha.once
  case complete =>
    intro r rec hrec hcmd hopen hzero
    rw [hanswers] at hzero
    apply hcomplete hrec hcmd hopen hzero

/-- A step that changes neither what is owed nor the history. -/
theorem of_owes_iff (ha : Accounted s) (hsent : s'.sent = s.sent)
    (howes : ∀ {r h}, Owes s' r h ↔ Owes s r h) (hreceived : s'.received = s.received)
    (hopen : ∀ {r : ℕ} {rec : Received}, s.received[r]? = some rec → s'.Open rec → s.Open rec) :
  Accounted s'
  := by
  apply ha.of_owes hsent howes.mp
  intro r rec hrec hcmd hopen' hzero
  rw [hreceived] at hrec
  obtain ⟨h, ho⟩ := ha.complete hrec hcmd (hopen hrec hopen') hzero
  exact ⟨h, howes.mpr ho⟩

/-- A step of a worker that changes neither the content of items nor the history. -/
theorem of_eq (ha : Accounted s) (hmain : s'.main = s.main)
    (hallocated : s'.allocated = s.allocated)
    (hheap : ∀ {p}, (s'.heap p).content = (s.heap p).content)
    (hrequestOf : s'.requestOf = s.requestOf) (hreceived : s'.received = s.received)
    (hconns : s'.conns = s.conns) (hsent : s'.sent = s.sent) :
  Accounted s'
  := by
  apply ha.of_owes_iff hsent _ hreceived
  · intro r rec _ hopen
    obtain ⟨hconn, hclosing⟩ := hopen
    rw [hconns] at hconn
    rw [hmain] at hclosing
    exact ⟨hconn, hclosing⟩
  · intro r h
    apply owes_congr
    · rw [hmain]
    · intro p
      rw [owes_some_iff, owes_some_iff, hallocated, hrequestOf, Item.fd_congr hheap]

/-- A step that sends the answer that was owed by `h`. -/
theorem answer (ha : Accounted s) (hr : Owes s r h) (hsent : s'.sent = s.sent ++ [e])
    (he : e.request = r) (howes : ∀ {r' h'}, Owes s' r' h' ↔ Owes s r' h' ∧ h' ≠ h)
    (hreceived : s'.received = s.received) (hopen : ∀ {rec}, s'.Open rec → s.Open rec) :
  Accounted s'
  := by
  have hanswers : ∀ r', s'.answers r' = s.answers r' + if r = r' then 1 else 0 := by
    intro r'
    rw [answers_append hsent, he]
  have hzero : s.answers r = 0 := ha.unanswered hr
  constructor
  case unique =>
    intro r' h₁ h₂ ho₁ ho₂
    apply ha.unique (howes.mp ho₁).1 (howes.mp ho₂).1
  case unanswered =>
    intro r' h' ho
    obtain ⟨ho, hne⟩ := howes.mp ho
    rw [hanswers, if_neg, ha.unanswered ho]
    rintro rfl
    apply hne (ha.unique ho hr)
  case once =>
    intro r'
    rw [hanswers]
    split
    · rename_i heq
      rw [← heq, hzero]
    · apply ha.once
  case complete =>
    intro r' rec hrec hcmd hopen' hzero'
    rw [hanswers] at hzero'
    rw [hreceived] at hrec
    obtain ⟨h', ho⟩ :=
      ha.complete hrec hcmd (hopen hopen') (Nat.eq_zero_of_add_eq_zero_right hzero')
    use h'
    apply howes.mpr
    use ho
    rintro rfl
    have hne : r ≠ r' := by
      rintro rfl
      simp at hzero'
    cases hr <;> cases ho <;> simp_all

/-- The main thread receives a request. -/
theorem receive {rec₀ : Received} (ha : Accounted s) (hr : Recorded s)
    (hmain : s.main.request = none) (hclosing : ∀ fd, s.main ≠ .closing fd)
    (hmain' : s'.main.request = some s.received.length)
    (hreceived : s'.received = s.received ++ [rec₀])
    (hitem : ∀ {r p}, Owes s' r (some p) ↔ Owes s r (some p)) (hconns : s'.conns = s.conns)
    (hsent : s'.sent = s.sent) :
  Accounted s'
  := by
  have hanswers : ∀ r, s'.answers r = s.answers r := by
    intro r
    rw [answers, hsent, answers]
  have howes : ∀ {r h}, Owes s' r h →
      h = none ∧ r = s.received.length ∨ Owes s r h ∧ r ≠ s.received.length := by
    intro r h ho
    cases h with
    | none =>
        left
        use rfl
        rw [owes_none_iff, hmain'] at ho
        apply (Option.some.inj ho).symm
    | some p =>
        right
        have hold := hitem.mp ho
        exact ⟨hold, (hr.lt_of_owes hold).ne⟩
  constructor
  case unique =>
    intro r h₁ h₂ ho₁ ho₂
    rcases howes ho₁ with ⟨rfl, rfl⟩ | ⟨ho₁, hne⟩
    · rcases howes ho₂ with ⟨rfl, -⟩ | ⟨-, hne⟩
      · rfl
      · apply absurd rfl hne
    · rcases howes ho₂ with ⟨-, rfl⟩ | ⟨ho₂, -⟩
      · apply absurd rfl hne
      · apply ha.unique ho₁ ho₂
  case unanswered =>
    intro r h ho
    rw [hanswers]
    rcases howes ho with ⟨-, rfl⟩ | ⟨ho, -⟩
    · apply hr.answers_eq_zero (le_refl _)
    · apply ha.unanswered ho
  case once =>
    intro r
    rw [hanswers]
    apply ha.once
  case complete =>
    intro r rec hrec hcmd hopen hzero
    rw [hanswers] at hzero
    by_cases hlen : r = s.received.length
    · use none
      rw [owes_none_iff, hmain', hlen]
    · have hrec' : s.received[r]? = some rec := by
        have hlt := (List.getElem?_eq_some_iff.mp hrec).1
        rw [hreceived, List.length_append, List.length_singleton] at hlt
        rw [← hrec, hreceived, List.getElem?_append_left]
        omega
      have hconn := hopen.conn
      rw [hconns] at hconn
      obtain ⟨h, ho⟩ := ha.complete hrec' hcmd ⟨hconn, hclosing _⟩ hzero
      cases h with
      | none => simp [owes_none_iff, hmain] at ho
      | some p => exact ⟨some p, hitem.mpr ho⟩

/-- The main thread passes a request to the queue. -/
theorem add {request : ℕ} {req : Protocol} {fd : ℤ} {n : ℕ} {item : Item} {res : Added}
    (ha : Accounted s) (hr : Recorded s) (hmain : s.main = .received request req fd)
    (hfree : .item n ∉ s.allocated)
    (hitem : item = newItem (s.heap (.item n)) (upgrade req) fd)
    (ho : AddOutcome (s.queue.queue.write n item) v n res v') :
  Accounted (s.afterAdd request (upgrade req) fd n res)
  := by
  have hrequest : Owes s request none := .main (by rw [hmain]; rfl)
  have hother : ∀ {r x}, x ≠ .item n →
      (Owes (s.afterAdd request (upgrade req) fd n res) r (some x) ↔ Owes s r (some x)) := by
    intro r x hx
    have hfd : (res.queue.heap x).fd = (s.heap x).fd := by
      rw [Item.fd_congr (ho.content_of_ne hx), heap_write_of_ne hx, heap]
    have hmem : x ∈ (s.afterAdd request (upgrade req) fd n res).allocated ↔ x ∈ s.allocated := by
      dsimp only [afterAdd]
      split
      · rfl
      · simp [hx]
    rw [owes_some_iff, owes_some_iff, hmem]
    simp only [afterAdd, heap] at hfd ⊢
    rw [hfd, Function.update_of_ne hx]
  have hopen : ∀ {rec}, (s.afterAdd request (upgrade req) fd n res).Open rec → s.Open rec := by
    intro rec h
    use h.conn
    simp [hmain]
  have hnot : ∀ {r}, ¬ Owes s r (some (.item n)) := fun h => hfree (owes_some_iff.mp h).1
  have hsame : res.status = .cmdNotDone →
      (∀ {r}, ¬ Owes (s.afterAdd request (upgrade req) fd n res) r (some (.item n))) →
      Accounted (s.afterAdd request (upgrade req) fd n res) := by
    intro hstatus hnot'
    have howes : ∀ {r h}, Owes (s.afterAdd request (upgrade req) fd n res) r h ↔ Owes s r h := by
      intro r h
      apply owes_congr
      · simp [afterAdd, hstatus, hmain, MainThread.request]
      · intro x
        by_cases hx : x = .item n
        · subst hx
          simp [hnot, hnot']
        · apply hother hx
    exact ha.of_owes_iff rfl howes rfl fun _ => hopen
  rcases ho.reply with ⟨hstatus, hfreed, hcontent⟩ | ⟨hstatus, hfreed, hcontent⟩ | ⟨hstatus, hfreed⟩
  · have hmain' : ∀ {r}, ¬ Owes (s.afterAdd request (upgrade req) fd n res) r none := by
      intro r h
      simp [owes_none_iff, afterAdd, hstatus, MainThread.request] at h
    have hback : ∀ {r h}, Owes (s.afterAdd request (upgrade req) fd n res) r h →
        h = some (.item n) ∧ r = request ∨ Owes s r h ∧ r ≠ request := by
      intro r h h'
      cases h with
      | none => apply absurd h' hmain'
      | some x =>
          by_cases hx : x = .item n
          · subst hx
            left
            use rfl
            have hr := (owes_some_iff.mp h').2.2
            simpa [afterAdd] using hr.symm
          · right
            have hold := (hother hx).mp h'
            use hold
            rintro rfl
            simpa using ha.unique hold hrequest
    constructor
    case unique =>
      intro r h₁ h₂ ho₁ ho₂
      rcases hback ho₁ with ⟨rfl, rfl⟩ | ⟨ho₁, hne⟩
      · rcases hback ho₂ with ⟨rfl, -⟩ | ⟨-, hne⟩
        · rfl
        · apply absurd rfl hne
      · rcases hback ho₂ with ⟨-, rfl⟩ | ⟨ho₂, -⟩
        · apply absurd rfl hne
        · apply ha.unique ho₁ ho₂
    case unanswered =>
      intro r h ho'
      rcases hback ho' with ⟨-, rfl⟩ | ⟨ho', -⟩
      · apply ha.unanswered hrequest
      · apply ha.unanswered ho'
    case once => apply ha.once
    case complete =>
      intro r rec hrec hcmd hopen' hzero
      obtain ⟨h, hold⟩ := ha.complete hrec hcmd (hopen hopen') hzero
      cases h with
      | some x =>
          use some x
          apply (hother _).mpr hold
          rintro rfl
          apply hnot hold
      | none =>
          obtain rfl : request = r := by
            simpa [owes_none_iff, hmain, MainThread.request] using hold
          obtain ⟨conn, hrec', -⟩ := hr.mainReceived hmain
          obtain rfl := Option.some.inj (hrec.symm.trans hrec')
          have hfd : (res.queue.heap (.item n)).fd = fd := by
            rw [Item.fd_congr hcontent, heap_write_self, hitem]
            apply congrArg Content.fd
              (content_newItem (s.heap (.item n)) { conn := conn, fd := fd, req := req } hcmd)
          use some (.item n)
          apply owes_some_iff.mpr
          simp only [afterAdd, hfreed, heap, hfd, Function.update_self]
          refine ⟨List.mem_cons_self, ?_, trivial⟩
          obtain ⟨hpos, -⟩ := hr.received hrec'
          rintro rfl
          simp [fdInvalid] at hpos
  · apply hsame hstatus
    intro r h
    apply (owes_some_iff.mp h).2.1
    apply congrArg Content.fd hcontent
  · apply hsame hstatus
    intro r h
    have hmem := (owes_some_iff.mp h).1
    simp only [afterAdd, hfreed, if_true] at hmem
    apply hfree hmem

/-- Every step keeps the accounts. -/
theorem effect (ha : Accounted s) (hr : Recorded s) (hc : Coherent s v chains)
    (he : Effect maps s v chains a s' v' chains') :
  Accounted s'
  := by
  cases he with
  | @accept fd hmain hfd hclosed =>
      refine ha.of_owes_iff rfl ?_ rfl ?_
      · intro r h
        apply owes_congr
        · rw [hmain]
        · exact owes_some_congr rfl rfl rfl
      · intro r rec hrec hopen
        constructor
        · have hconn := hopen.conn
          dsimp only at hconn
          by_cases hne : rec.fd = fd
          · subst hne
            rw [Function.update_self] at hconn
            obtain ⟨-, hlt⟩ := hr.received hrec
            simp only [Option.some.injEq] at hconn
            omega
          · rw [Function.update_of_ne hne] at hconn
            apply hconn
        · simp [hmain]
  | @receive fd req conn hmain hopen =>
      exact ha.receive hr (by rw [hmain]; rfl) (by simp [hmain]) rfl rfl
        (owes_some_congr rfl rfl rfl) rfl rfl
  | @refuse request req fd address hmain =>
      refine ha.of_owes_iff rfl ?_ rfl ?_
      · intro r h
        apply owes_congr
        · rw [hmain]
          rfl
        · exact owes_some_congr rfl rfl rfl
      · intro r rec hrec hopen
        use hopen.conn
        simp [hmain]
  | add hmain hcmd hfree hitem hadded ho => apply ha.add hr hmain hfree hitem ho
  | @sendNotDone request req fd hmain =>
      have hrequest : Owes s request none := .main (by rw [hmain]; rfl)
      refine ha.answer hrequest rfl rfl ?_ rfl ?_
      · intro r h
        cases h with
        | none => simp [owes_none_iff, MainThread.request]
        | some p => simp [owes_some_iff, heap]
      · intro rec hopen
        use hopen.conn
        simp [hmain]
  | @clear fd conn q' hmain hopen hheap =>
      refine ha.of_owes rfl ?_ ?_
      · intro r h ho
        cases h with
        | none => simp [owes_none_iff, MainThread.request] at ho
        | some p =>
            obtain ⟨hp, hfd, hreq⟩ := owes_some_iff.mp ho
            refine owes_some_iff.mpr ⟨hp, ?_, hreq⟩
            dsimp only [heap] at hfd ⊢
            rw [hheap] at hfd
            split at hfd
            · simp at hfd
            · apply hfd
      · intro r rec hrec hcmd hopen' hzero
        obtain ⟨h, ho⟩ := ha.complete hrec hcmd ⟨hopen'.conn, by simp [hmain]⟩ hzero
        cases h with
        | none => simp [owes_none_iff, hmain, MainThread.request] at ho
        | some p =>
            obtain ⟨hp, hfd, rfl⟩ := owes_some_iff.mp ho
            obtain ⟨rec', hrec', hcontent, -⟩ := hr.item hp hfd
            obtain rfl := Option.some.inj (hrec.symm.trans hrec')
            have hne : (s.heap p).fd ≠ fd := by
              rw [show (s.heap p).fd = rec.fd from congrArg Content.fd hcontent]
              rintro rfl
              apply hopen'.main rfl
            use some p
            refine owes_some_iff.mpr ⟨hp, ?_, rfl⟩
            dsimp only [heap] at hfd ⊢
            rw [hheap, if_neg fun h => hne h.2]
            apply hfd
  | @close fd hmain =>
      refine ha.of_owes_iff rfl ?_ rfl ?_
      · intro r h
        apply owes_congr
        · rw [hmain]
          rfl
        · exact owes_some_congr rfl rfl rfl
      · intro r rec hrec hopen
        have hconn := hopen.conn
        have hne : rec.fd ≠ fd := by
          rintro rfl
          simp at hconn
        dsimp only at hconn
        rw [Function.update_of_ne hne] at hconn
        use hconn
        rw [hmain]
        intro h
        apply hne (MainThread.closing.inj h).symm
  | fetch hworker hlist hp => exact ha.of_eq rfl rfl content_fetchFrom rfl rfl rfl rfl
  | finish hworker hp hresponses hq =>
      exact ha.of_eq rfl rfl (content_removeRequest hq) rfl rfl rfl rfl
  | respondEnd hworker => exact ha.of_eq rfl rfl rfl rfl rfl rfl rfl
  | @respond worker rsp p l hworker hchain =>
      have hp : p ∈ s.allocated := by
        apply hc.mem_allocated_of_chain (w := worker)
        rw [hchain]
        apply List.mem_cons_self
      have howes : ∀ {r h}, Owes (s.sendItem worker rsp p) r h ↔ Owes s r h ∧ h ≠ some p := by
        intro r h
        rw [sendItem_eq]
        cases h with
        | none => simp [owes_none_iff]
        | some x =>
            rw [owes_some_iff, owes_some_iff]
            dsimp only [heap]
            rw [hc.allocatedNodup.mem_erase_iff]
            simp only [ne_eq, Option.some.injEq]
            tauto
      have hreceived : (s.sendItem worker rsp p).received = s.received := by rw [sendItem_eq]
      have hopen : ∀ {rec}, (s.sendItem worker rsp p).Open rec → s.Open rec := by
        intro rec h
        rw [sendItem_eq] at h
        exact ⟨h.conn, h.main⟩
      have hsent := sent_sendItem s worker rsp p
      split at hsent
      · rename_i hsend
        apply ha.answer (owes_some_iff.mpr ⟨hp, hsend.1, rfl⟩) hsent rfl howes hreceived hopen
      · rename_i hsend
        apply ha.of_owes_iff hsent _ hreceived fun _ => hopen
        intro r h
        rw [howes, and_iff_left_iff_imp]
        rintro ho rfl
        obtain ⟨-, hfd, -⟩ := owes_some_iff.mp ho
        obtain ⟨rec, -, hcontent, hcmd⟩ := hr.item hp hfd
        apply hsend
        use hfd
        rw [show (s.heap p).req = upgrade rec.req from congrArg Content.req hcontent, upgrade_cmd]
        apply hcmd

end Accounted

/-- The answer to a request is still to come: from the main thread, from an item of the queue, or
from an item that a worker has still to respond to. -/
def Waiting (s : Renderd) (r : ℕ) : Prop :=
  s.main.request = some r ∨
    ∃ p, s.requestOf p = r ∧ (s.heap p).fd ≠ fdInvalid ∧ Protocol.isRender (s.heap p).req.cmd ∧
      (p ∈ s.queue.accepted ∨
        ∃ w rsp o l, s.workers w = .responding rsp o ∧ Chain s.heap.duplicates o l ∧ p ∈ l)

/-- Who owes an answer has still to give it. -/
theorem waiting_iff_owes (hc : Coherent s v chains) (hr : Recorded s) :
  s.Waiting r ↔ ∃ h, Owes s r h
  := by
  constructor
  · rintro (h | ⟨p, hreq, hfd, -, hp | ⟨w, rsp, o, l, hw, hl, hp⟩⟩)
    · exact ⟨none, .main h⟩
    · exact ⟨some p, .item (hc.mem_allocated_of_accepted hp) hfd hreq⟩
    · have hchain := hc.chain w
      rw [hw] at hchain
      rw [hl.unique hchain] at hp
      exact ⟨some p, .item (hc.mem_allocated_of_chain hp) hfd hreq⟩
  · rintro ⟨h, ho⟩
    cases ho with
    | main h => exact Or.inl h
    | @item p hp hfd hreq =>
        right
        obtain ⟨rec, -, hcontent, hcmd⟩ := hr.item hp hfd
        use p, hreq, hfd
        constructor
        · rw [show (s.heap p).req = upgrade rec.req from congrArg Content.req hcontent, upgrade_cmd]
          apply hcmd
        · rcases hc.allocated.mp hp with hp | ⟨w, hp⟩
          · exact Or.inl hp
          · right
            have hchain := hc.chain w
            cases hw : s.workers w with
            | idle =>
                rw [hc.chain_eq_nil (p := p) (Or.inl hw)] at hp
                simp at hp
            | rendering x =>
                rw [hc.chain_eq_nil (Or.inr hw)] at hp
                simp at hp
            | responding rsp o =>
                rw [hw] at hchain
                exact ⟨w, rsp, o, _, hw, hchain, hp⟩

/-- In every reached state the daemon is coherent, agrees with its history and keeps its
accounts. -/
theorem reach_accounted {ok : Renderd → ThreadStep → Prop} (h : Reach (step maps) ok (init m) s) :
  (∃ v chains, Coherent s v chains) ∧ Recorded s ∧ Accounted s
  := by
  apply h.invariant ⟨⟨_, _, coherent_init⟩, recorded_init, accounted_init⟩
  rintro t a u ⟨⟨v, chains, hc⟩, hr, ha⟩ - hstep
  obtain ⟨v', chains', he, hc'⟩ := step_effect hc hstep
  exact ⟨⟨v', chains', hc'⟩, hr.effect hc he, ha.effect hr hc he⟩

/-- A rendering request is answered at most once, and while its connection is open it has been
answered or its answer is still to come. -/
theorem answered_once {rec : Received} (h : Reach (step maps) anyStep (init m) s)
    (hrec : s.received[r]? = some rec) (hcmd : Protocol.isRender rec.req.cmd) :
  s.answers r ≤ 1 ∧
    (s.Open rec → s.answers r = 1 ∧ ¬ s.Waiting r ∨ s.answers r = 0 ∧ s.Waiting r)
  := by
  obtain ⟨⟨v, chains, hc⟩, hr, ha⟩ := reach_accounted h
  use ha.once r
  intro hopen
  rw [waiting_iff_owes hc hr]
  rcases Nat.le_one_iff_eq_zero_or_eq_one.mp (ha.once r) with hzero | hone
  · right
    exact ⟨hzero, ha.complete hrec hcmd hopen hzero⟩
  · left
    use hone
    rintro ⟨h, ho⟩
    rw [ha.unanswered ho] at hone
    simp at hone

/-- A rendering request in the third version of the protocol. -/
def sampleRequest (x : Int32) (options : XmlconfigArray) : Protocol where
  ver := 3
  cmd := .cmdRender
  x := x
  y := 0
  z := 4
  xmlname := .replicate _ 0
  mimetype := .replicate _ 0
  options := options

/-- Two clients ask for tiles of one metatile, the second while it is being rendered. -/
def sampleActions (options : XmlconfigArray) : List ThreadStep :=
  [.accept 5, .accept 6, .receive 5 (sampleRequest 1 (.replicate _ 0)), .rxRequest (some 0),
   .fetch 0, .receive 6 (sampleRequest 2 options), .rxRequest (some 1),
   .finish 0 (.render (sampleOutcome true 532)), .respond 0]

/-- The daemon before the first connection, with empty memory. -/
def sampleInit : Renderd := init fun _ => .sample .cmdIgnore 0 fdInvalid

theorem answered_once_sample :
  ∃ s rec, run (step [sampleMap]) (fun _ _ => true) sampleInit (sampleActions (.replicate _ 0)) =
      some s ∧ s.received[1]? = some rec ∧ Protocol.isRender rec.req.cmd ∧ s.answers 1 ≤ 1 ∧
    (s.Open rec → s.answers 1 = 1 ∧ ¬ s.Waiting 1 ∨ s.answers 1 = 0 ∧ s.Waiting 1)
  := by
  have hrun : (run (step [sampleMap]) (fun _ _ => true) sampleInit
      (sampleActions (.replicate _ 0))).map (fun s => (s.received[1]?).map fun rec => rec.req) =
        some (some (sampleRequest 2 (.replicate _ 0))) := by
    decide +kernel
  obtain ⟨s, hs, h⟩ := Option.map_eq_some_iff.mp hrun
  obtain ⟨rec, hrec, hreq⟩ := Option.map_eq_some_iff.mp h
  have hcmd : Protocol.isRender rec.req.cmd := by
    rw [hreq]
    rfl
  exact ⟨s, rec, hs, hrec, hcmd, answered_once (reach_of_run hs fun _ _ _ => trivial) hrec hcmd⟩

end Renderd
