import Mathlib.Data.List.Nodup
import Mathlib.Logic.Function.Basic

/-!
# First come, first served, with strict priority

Items arrive in classes.  Those of one class wait in a sequence; the one that is served next
is the first of the first class, in a given order of the classes, in which one waits.  Every
arrival gets a ticket with its number, and the state records the tickets in the order of
arrival and in the order of service.

`InOrder` says that the tickets of a class are served in the order of their arrival: those
that have been served, followed by those that wait, are those that have arrived.

`Behind` tells how many tickets are served before a given one: those before it in its class, and
all of the classes with a higher priority.  A service takes one of them away, and only an arrival
with a higher priority adds one.
-/

namespace PriorityFifo

variable {κ α : Type*}

/-- Another sequence in one of some classes. -/
theorem length_flatMap_of_ne {f g : κ → List α} {c : κ} {classes : List κ}
    (hnodup : classes.Nodup) (hc : c ∈ classes) (hsame : ∀ c' ≠ c, g c' = f c') :
  (classes.flatMap g).length + (f c).length = (classes.flatMap f).length + (g c).length
  := by
  obtain ⟨l, l', rfl⟩ := List.append_of_mem hc
  have hl : c ∉ l ++ l' := (List.nodup_middle.mp hnodup).notMem
  have hflat : (l ++ l').flatMap g = (l ++ l').flatMap f := by
    apply List.flatMap_congr
    intro c' hc'
    apply hsame c'
    rintro rfl
    exact hl hc'
  have hlength := congrArg List.length hflat
  simp only [List.flatMap_append, List.flatMap_cons, List.length_append] at hlength ⊢
  omega

/-- The arrival of an item in a class. -/
structure Ticket (κ α : Type*) where
  number : ℕ
  cls : κ
  item : α

/-- Who waits in each class, who has arrived and who has been served. -/
structure State (κ α : Type*) where
  waiting : κ → List (Ticket κ α)
  arrived : List (Ticket κ α)
  served : List (Ticket κ α)

namespace State

/-- Nobody has arrived. -/
def empty : State κ α where
  waiting := fun _ => []
  arrived := []
  served := []

/-- The ticket of the next arrival. -/
def ticket (s : State κ α) (c : κ) (a : α) : Ticket κ α where
  number := s.arrived.length
  cls := c
  item := a

/-- The ticket that is served next. -/
def next (s : State κ α) (order : List κ) : Option (Ticket κ α) :=
  order.findSome? fun c => (s.waiting c).head?

variable [DecidableEq κ]

/-- The arrival of an item in a class. -/
def put (s : State κ α) (c : κ) (a : α) : State κ α where
  waiting := Function.update s.waiting c (s.waiting c ++ [s.ticket c a])
  arrived := s.arrived ++ [s.ticket c a]
  served := s.served

/-- The service of the first item of the first class in the order in which one waits. -/
def serve (s : State κ α) (order : List κ) : Option (State κ α) :=
  (s.next order).map fun t => {
    s with
    waiting := Function.update s.waiting t.cls (s.waiting t.cls).tail
    served := s.served ++ [t] }

/-- The tickets of every class are served in the order of their arrival. -/
structure InOrder (s : State κ α) : Prop where
  /-- The tickets are numbered in the order of arrival. -/
  numbered : s.arrived.map Ticket.number = List.range s.arrived.length
  /-- The tickets of a class that have been served, followed by those that wait, are those that
  have arrived. -/
  fifo : ∀ c, s.arrived.filter (·.cls = c) = s.served.filter (·.cls = c) ++ s.waiting c

variable {s s' : State κ α} {t : Ticket κ α} {c c' : κ} {a : α} {order : List κ}

theorem waiting_put_self :
  (s.put c a).waiting c = s.waiting c ++ [s.ticket c a]
  := Function.update_self ..

theorem waiting_put_of_ne (h : c' ≠ c) :
  (s.put c a).waiting c' = s.waiting c'
  := Function.update_of_ne h ..

theorem inOrder_empty :
  (empty : State κ α).InOrder
  := ⟨rfl, fun _ => rfl⟩

/-- A ticket waits in its class. -/
theorem InOrder.cls_of_mem (h : s.InOrder) (ht : t ∈ s.waiting c) :
  t.cls = c
  := by
  have hmem : t ∈ s.arrived.filter (·.cls = c) := by
    rw [h.fifo]
    apply List.mem_append_right _ ht
  simpa using List.of_mem_filter hmem

/-- Every ticket is served once at most. -/
theorem InOrder.served_nodup (h : s.InOrder) :
  s.served.Nodup
  := by
  classical
  have harrived : s.arrived.Nodup := by
    apply List.Nodup.of_map Ticket.number
    rw [h.numbered]
    apply List.nodup_range
  rw [List.nodup_iff_count_le_one]
  intro t
  have hcount : s.served.count t = (s.served.filter (·.cls = t.cls)).count t := by
    rw [List.count_filter]
    simp
  calc s.served.count t
      = (s.served.filter (·.cls = t.cls)).count t := hcount
    _ ≤ (s.served.filter (·.cls = t.cls) ++ s.waiting t.cls).count t := by
        rw [List.count_append]
        apply Nat.le_add_right
    _ = (s.arrived.filter (·.cls = t.cls)).count t := by rw [h.fifo]
    _ ≤ 1 := List.nodup_iff_count_le_one.mp (harrived.filter _) t

/-- An arrival keeps the order. -/
theorem InOrder.put (h : s.InOrder) (c : κ) (a : α) :
  (s.put c a).InOrder
  := by
  constructor
  case numbered =>
    simp only [State.put, List.map_append, h.numbered, List.map_singleton, List.length_append,
      List.length_singleton, List.range_succ]
    rfl
  case fifo =>
    intro c'
    have harrived : (s.put c a).arrived = s.arrived ++ [s.ticket c a] := rfl
    have hserved : (s.put c a).served = s.served := rfl
    rw [harrived, hserved, List.filter_append, h.fifo]
    by_cases hc : c' = c
    · subst hc
      rw [waiting_put_self, List.append_assoc]
      simp [ticket]
    · rw [waiting_put_of_ne hc]
      have hc' : c ≠ c' := fun e => hc e.symm
      simp [ticket, hc']

/-- The next ticket is the first in its class. -/
theorem InOrder.next_spec (h : s.InOrder) (hnext : s.next order = some t) :
  ∃ rest, s.waiting t.cls = t :: rest
  := by
  obtain ⟨l, c, l', -, hhead, -⟩ := List.findSome?_eq_some_iff.mp hnext
  obtain ⟨rest, hwait⟩ := List.head?_eq_some_iff.mp hhead
  have hcls : t.cls = c := by
    apply h.cls_of_mem
    rw [hwait]
    apply List.mem_cons_self
  use rest
  rw [hcls, hwait]

/-- Service keeps the order. -/
theorem InOrder.serve (h : s.InOrder) (hserve : s.serve order = some s') :
  s'.InOrder
  := by
  obtain ⟨t, hnext, rfl⟩ := Option.map_eq_some_iff.mp hserve
  obtain ⟨rest, hwait⟩ := h.next_spec hnext
  constructor
  case numbered => apply h.numbered
  case fifo =>
    intro c
    dsimp only
    rw [List.filter_append, h.fifo]
    by_cases hc : c = t.cls
    · subst hc
      rw [Function.update_self, hwait, List.append_assoc]
      simp
    · rw [Function.update_of_ne hc]
      have hc' : t.cls ≠ c := fun e => hc e.symm
      simp [hc']

/-! ### How long a ticket waits -/

/-- How many wait in some classes. -/
def noWaiting (s : State κ α) (classes : List κ) : ℕ := (classes.flatMap s.waiting).length

/-- How many have arrived in some classes. -/
def noArrived (s : State κ α) (classes : List κ) : ℕ :=
  s.arrived.countP fun t => t.cls ∈ classes

omit [DecidableEq κ] in
theorem noWaiting_eq_zero_iff {classes : List κ} :
  s.noWaiting classes = 0 ↔ ∀ c ∈ classes, s.waiting c = []
  := by
  rw [noWaiting, List.length_eq_zero_iff, List.flatMap_eq_nil_iff]

theorem noArrived_put {classes : List κ} :
  (s.put c a).noArrived classes = s.noArrived classes + if c ∈ classes then 1 else 0
  := by
  simp [noArrived, put, ticket]

/-- An arrival in one of the classes is one more that waits there. -/
theorem noWaiting_put {classes : List κ} (hnodup : classes.Nodup) :
  (s.put c a).noWaiting classes = s.noWaiting classes + if c ∈ classes then 1 else 0
  := by
  by_cases hc : c ∈ classes
  · have hupdate : (classes.flatMap (s.put c a).waiting).length + _ = _ :=
      length_flatMap_of_ne hnodup hc fun c' hne => waiting_put_of_ne hne
    rw [waiting_put_self, List.length_append, List.length_singleton] at hupdate
    rw [if_pos hc, noWaiting, noWaiting]
    omega
  · rw [if_neg hc, noWaiting, List.flatMap_congr]
    · rfl
    intro c' hc'
    apply waiting_put_of_ne
    rintro rfl
    exact hc hc'

/-- The ticket waits, and `k` tickets are served before it if nobody arrives: those before it in
its class, and those in the classes `higher` with a higher priority. -/
def Behind (s : State κ α) (higher : List κ) (t : Ticket κ α) (k : ℕ) : Prop :=
  ∃ i, (s.waiting t.cls)[i]? = some t ∧ i + s.noWaiting higher = k

namespace Behind

variable {higher lower : List κ} {k : ℕ}

/-- Only an arrival with a higher priority comes before the ticket. -/
theorem put (h : s.Behind higher t k) (hnodup : higher.Nodup) :
  (s.put c a).Behind higher t (k + if c ∈ higher then 1 else 0)
  := by
  obtain ⟨i, hi, rfl⟩ := h
  refine ⟨i, ?_, ?_⟩
  · by_cases hc : t.cls = c
    · rw [hc] at hi ⊢
      rw [waiting_put_self, List.getElem?_append_left (List.getElem?_eq_some_iff.mp hi).1, hi]
    · rw [waiting_put_of_ne hc, hi]
  · rw [noWaiting_put hnodup, Nat.add_assoc]

/-- With a ticket in a class of higher priority, that is the class of the next one. -/
theorem next_higher (lower : List κ) (hinOrder : s.InOrder) (hwaiting : s.noWaiting higher ≠ 0) :
  ∃ u, s.next (higher ++ lower) = some u ∧ u.cls ∈ higher
  := by
  obtain ⟨c, hc, hne⟩ : ∃ c ∈ higher, s.waiting c ≠ [] := by
    by_contra hall
    apply hwaiting
    apply noWaiting_eq_zero_iff.mpr
    intro c hc
    by_contra hne
    exact hall ⟨c, hc, hne⟩
  obtain ⟨u, hu⟩ : ∃ u, higher.findSome? (fun c => (s.waiting c).head?) = some u := by
    apply Option.ne_none_iff_exists'.mp
    intro hnone
    apply hne
    exact List.head?_eq_none_iff.mp (List.findSome?_eq_none_iff.mp hnone c hc)
  refine ⟨u, ?_, ?_⟩
  · rw [next, List.findSome?_append, hu]
    rfl
  · obtain ⟨l, c', l', rfl, hhead, -⟩ := List.findSome?_eq_some_iff.mp hu
    rw [hinOrder.cls_of_mem (List.mem_of_head? hhead)]
    simp

/-- A service takes away one of the tickets before the ticket, and when there is none, serves the
ticket itself. -/
theorem serve (h : s.Behind higher t k) (hinOrder : s.InOrder)
    (hnodup : (higher ++ t.cls :: lower).Nodup)
    (hserve : s.serve (higher ++ t.cls :: lower) = some s') :
  k = 0 ∧ s'.served = s.served ++ [t] ∨ ∃ k', k = k' + 1 ∧ s'.Behind higher t k'
  := by
  obtain ⟨i, hi, rfl⟩ := h
  obtain ⟨u, hnext, rfl⟩ := Option.map_eq_some_iff.mp hserve
  obtain ⟨rest, hrest⟩ := hinOrder.next_spec hnext
  have hcls : t.cls ∉ higher := by
    intro hmem
    exact (List.nodup_middle.mp hnodup).notMem (List.mem_append_left _ hmem)
  by_cases hwaiting : s.noWaiting higher = 0
  · -- the next ticket is the first of the same class
    have hhead : s.next (higher ++ t.cls :: lower) = (s.waiting t.cls).head? := by
      have hnone : higher.findSome? (fun c => (s.waiting c).head?) = none := by
        apply List.findSome?_eq_none_iff.mpr
        intro c hc
        rw [noWaiting_eq_zero_iff.mp hwaiting c hc]
        rfl
      rw [next, List.findSome?_append, hnone, Option.none_or, List.findSome?_cons]
      cases hw : s.waiting t.cls with
      | nil => rw [hw] at hi; cases hi
      | cons x xs => rfl
    obtain ⟨rest', hrest'⟩ := List.head?_eq_some_iff.mp (hhead.symm.trans hnext)
    have hu : u.cls = t.cls := by
      apply hinOrder.cls_of_mem
      rw [hrest']
      apply List.mem_cons_self
    rw [hrest'] at hi
    cases i with
    | zero =>
        obtain rfl := Option.some.inj hi
        exact Or.inl ⟨by rw [hwaiting], rfl⟩
    | succ i =>
        refine Or.inr ⟨i, by rw [hwaiting], i, ?_, ?_⟩
        · dsimp only
          rw [hu, Function.update_self, hrest']
          exact hi
        · rw [Nat.add_eq_left, ← hwaiting, noWaiting, noWaiting, List.flatMap_congr]
          intro c hc
          dsimp only
          rw [Function.update_of_ne]
          rw [hu]
          rintro rfl
          exact hcls hc
  · -- the next ticket is one of higher priority
    obtain ⟨u', hnext', hu⟩ := next_higher (t.cls :: lower) hinOrder hwaiting
    obtain rfl := Option.some.inj (hnext'.symm.trans hnext)
    have hne : t.cls ≠ u'.cls := by
      rintro heq
      rw [heq] at hcls
      exact hcls hu
    have hupdate : (higher.flatMap
        (Function.update s.waiting u'.cls (s.waiting u'.cls).tail)).length + _ = _ :=
      length_flatMap_of_ne (List.Nodup.of_append_left hnodup) hu
        fun c hc => Function.update_of_ne hc ..
    rw [Function.update_self, hrest, List.tail_cons, List.length_cons] at hupdate
    refine Or.inr ⟨i + _, ?_, i, ?_, rfl⟩
    · rw [noWaiting, noWaiting, Nat.add_assoc, hrest, List.tail_cons]
      dsimp only
      omega
    · dsimp only
      rw [Function.update_of_ne hne, hi]

end Behind

end State

end PriorityFifo
