import ModTile.Bytes.Strtok
import ModTile.Config
import ModTile.DirectoryTree
import ModTile.Transition

/-!
# Making the directories of a path

`mkdirp` of `store_file_utils.c`, which makes the directories above a file.  It cuts the path at
its last slash and looks whether the parent is there.  If it is not, it goes through the path,
cuts it at one slash after the other, and makes the directories that are missing.

Threads call the function at the same time.  Between the two calls of the operating system for a
directory another thread may have made it, so that it is no error if there is an entry when a
directory is made.  The entry is not looked at again.
-/

namespace Mkdirp

open DirectoryTree Transition

abbrev Name : Type := List UInt8

abbrev Tree : Type := DirectoryTree Name

def isSlash (c : UInt8) : Bool := c = 47

/-- The names in a path. -/
def names (text : List UInt8) : List Name := Bytes.tokensOn isSlash text

/-- An absolute path that is shorter than the array for it, without the names `.` and `..`. -/
structure Path where
  text : List UInt8
  absolute : text.head? = some 47
  short : text.length < pathMax - 1
  nonzero : 0 ∉ text
  plain : ∀ name ∈ names text, name ≠ [46] ∧ name ≠ [46, 46]

/-- The string in the array `tmp`. -/
def Path.tmp (path : Path) : List UInt8 := path.text.take (pathMax - 1)

/-- The string before the last slash. -/
def parentText (tmp : List UInt8) : List UInt8 :=
  (tmp.reverse.dropWhile (!isSlash ·)).tail.reverse

section Program

variable (access : List Name → Bool)

/-- The stat of a path.  An empty path is not found, and a path that ends with a slash is found
only if it is a directory. -/
def statText (t : Tree) (text : List UInt8) : Stat :=
  if text = [] then .failed
  else
    match t.stat (access (names text)) (names text) with
    | .directory => .directory
    | .other => if text.getLast? = some 47 then .failed else .other
    | .failed => .failed

/-- Making a directory for a path. -/
def mkdirText (t : Tree) (text : List UInt8) (refused : Bool) : Mkdir Name :=
  if text = [] then .failed else t.mkdir (access (names text)) refused (names text)

/-- Where a thread is in the function: before the stat of the parent, at the place `k` of the
loop, before the directory for the path up to the place `k` is made, or at the end. -/
inductive Phase where
  | parent
  | scan (k : ℕ)
  | make (k : ℕ)
  | done (ret : ℤ)
  deriving DecidableEq

/-- The start of the function. -/
def begin (tmp : List UInt8) : Phase := if 47 ∈ tmp then .parent else .done 0

/-- The end of the stat of the parent. -/
def afterParent (tmp : List UInt8) : Stat → Phase
  | .directory => .done 0
  | .other => .done 1
  | .failed => if tmp = [] then .done 0 else .scan 1

/-- The end of a stat in the loop. -/
def afterStat (k : ℕ) : Stat → Phase
  | .directory => .scan (k + 1)
  | .other => .done 1
  | .failed => .make k

/-- The end of making a directory. -/
def afterMkdir (t : Tree) (k : ℕ) : Mkdir Name → Tree × Phase
  | .created t' => (t', .scan (k + 1))
  | .eexist => (t, .scan (k + 1))
  | .failed => (t, .done 1)

/-- What a thread does up to the next call of the operating system. -/
def Phase.step (tmp : List UInt8) (refused : Bool) (t : Tree) : Phase → Option (Tree × Phase)
  | .parent => some (t, afterParent tmp (statText access t (parentText tmp)))
  | .scan k =>
      match tmp[k]? with
      | none => some (t, .done 0)
      | some c =>
          if isSlash c then some (t, afterStat k (statText access t (tmp.take k)))
          else some (t, .scan (k + 1))
  | .make k => some (afterMkdir t k (mkdirText access t (tmp.take k) refused))
  | .done _ => none

/-- A call of the function, with the number of steps that it has made. -/
structure Thread where
  path : Path
  phase : Phase
  steps : ℕ

/-- The tree and the calls. -/
structure State where
  tree : Tree
  threads : ℕ → Option Thread

/-- What happens next: a thread calls the function, or goes on with it. -/
inductive Action where
  | start (i : ℕ) (path : Path)
  | run (i : ℕ) (refused : Bool)

/-- A tree without calls. -/
def State.init (t : Tree) : State := ⟨t, fun _ => none⟩

/-- The state after an action, if it is possible. -/
def State.step (s : State) : Action → Option State
  | .start i path =>
      match s.threads i with
      | none =>
          some { s with threads := Function.update s.threads i (some ⟨path, begin path.tmp, 0⟩) }
      | some _ => none
  | .run i refused =>
      match s.threads i with
      | none => none
      | some th =>
          (th.phase.step access th.path.tmp refused s.tree).map fun r =>
            ⟨r.1, Function.update s.threads i (some ⟨th.path, r.2, th.steps + 1⟩)⟩

end Program

variable {access : List Name → Bool} {t t' : Tree} {tmp : List UInt8} {k : ℕ} {refused : Bool}
  {phase phase' : Phase}

/-! ### Paths -/

theorem Path.tmp_eq (path : Path) :
  path.tmp = path.text
  := List.take_of_length_le path.short.le

/-- The parent of a path that is written out. -/
theorem parentText_append {parent name : List UInt8} (h : 47 ∉ name) :
  parentText (parent ++ 47 :: name) = parent
  := by
  have hdrop : (name.reverse ++ 47 :: parent.reverse).dropWhile (!isSlash ·) =
      47 :: parent.reverse := by
    rw [List.dropWhile_append_of_pos]
    · rfl
    · intro c hc
      have hne : c ≠ 47 := by
        rintro rfl
        apply h (List.mem_reverse.mp hc)
      simp [isSlash, hne]
  rw [parentText, List.reverse_append, List.reverse_cons, List.append_assoc, List.singleton_append,
    hdrop, List.tail_cons, List.reverse_reverse]

/-- A path with a slash is its parent, a slash, and a name. -/
theorem exists_eq_parentText (h : 47 ∈ tmp) :
  ∃ name, tmp = parentText tmp ++ 47 :: name ∧ 47 ∉ name
  := by
  obtain ⟨name, parent, hname, heq⟩ := List.eq_append_cons_of_mem (List.mem_reverse.mpr h)
  have htmp : tmp = parent.reverse ++ 47 :: name.reverse := by
    rw [← List.reverse_reverse tmp, hname]
    simp
  have hnot : 47 ∉ name.reverse := by
    rwa [List.mem_reverse]
  refine ⟨name.reverse, ?_, hnot⟩
  rw [htmp, parentText_append hnot]

/-- The names of a path with a slash in it. -/
theorem names_append (text text' : List UInt8) :
  names (text ++ 47 :: text') = names text ++ names text'
  := Bytes.tokensOn_append_cons rfl

/-- The path up to a slash leads to the parent or to something above it. -/
theorem names_take_above (hk : tmp[k]? = some 47) :
  names (tmp.take k) <+: names (parentText tmp)
  := by
  obtain ⟨hlt, hslash⟩ := List.getElem?_eq_some_iff.mp hk
  have hcut : tmp = tmp.take k ++ 47 :: tmp.drop (k + 1) := by
    rw [← hslash, List.cons_getElem_drop_succ, List.take_append_drop]
  by_cases hlast : 47 ∈ tmp.drop (k + 1)
  · obtain ⟨name, hname, hnot⟩ := exists_eq_parentText hlast
    have hparent : parentText tmp = tmp.take k ++ 47 :: parentText (tmp.drop (k + 1)) := by
      have htmp : tmp = (tmp.take k ++ 47 :: parentText (tmp.drop (k + 1))) ++ 47 :: name := by
        rw [List.append_assoc, List.cons_append, ← hname, ← hcut]
      calc parentText tmp
        _ = parentText ((tmp.take k ++ 47 :: parentText (tmp.drop (k + 1))) ++ 47 :: name) := by
          rw [← htmp]
        _ = tmp.take k ++ 47 :: parentText (tmp.drop (k + 1)) := parentText_append hnot
    rw [hparent, names_append]
    apply List.prefix_append
  · have hparent : parentText tmp = tmp.take k := by
      calc parentText tmp
        _ = parentText (tmp.take k ++ 47 :: tmp.drop (k + 1)) := by rw [← hcut]
        _ = tmp.take k := parentText_append hlast
    rw [hparent]

/-! ### One call -/

/-- There is an entry, and it is a directory or a link that leads nowhere. -/
def Passed (t : Tree) (q : List Name) : Prop :=
  t.entry q = some .directory ∨ t.entry q = some .dangling

/-- The loop has come to the place `k`, and every path up to a slash before it is passed. -/
def PassedTo (t : Tree) (tmp : List UInt8) (k : ℕ) : Prop :=
  1 ≤ k ∧ ∀ j, 1 ≤ j → j < k → tmp[j]? = some 47 → Passed t (names (tmp.take j))

/-- What a thread knows about the tree. -/
def Phase.Sound (access : List Name → Bool) (t : Tree) (tmp : List UInt8) : Phase → Prop
  | .parent => True
  | .scan k => PassedTo t tmp k
  | .make k =>
      PassedTo t tmp k ∧ tmp[k]? = some 47 ∧
        (access (names (tmp.take k)) = true → t.entry (names (tmp.take k)) ≠ some .other)
  | .done ret => (ret = 0 → Passed t (names (parentText tmp))) ∧ (ret = 0 ∨ ret = 1)

/-- A bound for the number of steps that are left. -/
def Phase.fuel (tmp : List UInt8) : Phase → ℕ
  | .parent => 2 * tmp.length + 2
  | .scan k => 2 * (tmp.length - k) + 1
  | .make k => 2 * (tmp.length - k)
  | .done _ => 0

theorem Passed.grows {q : List Name} (h : Passed t q) (hgrows : Grows t t') :
  Passed t' q
  := h.imp hgrows.entry hgrows.entry

theorem PassedTo.grows (h : PassedTo t tmp k) (hgrows : Grows t t') :
  PassedTo t' tmp k
  := ⟨h.1, fun j hj hlt hslash => (h.2 j hj hlt hslash).grows hgrows⟩

/-- What a thread knows stays true when directories are made. -/
theorem Phase.Sound.grows (h : phase.Sound access t tmp) (hgrows : Grows t t') :
  phase.Sound access t' tmp
  := by
  cases phase with
  | parent => trivial
  | scan k => apply PassedTo.grows h hgrows
  | make k =>
      obtain ⟨hpassed, hslash, hentry⟩ := h
      refine ⟨hpassed.grows hgrows, hslash, ?_⟩
      intro haccess hother
      apply hentry haccess
      apply hgrows.of_entry hother
      simp
  | done ret => exact ⟨fun hret => (h.1 hret).grows hgrows, h.2⟩

/-- One more place. -/
theorem PassedTo.succ (h : PassedTo t tmp k)
    (hk : tmp[k]? = some 47 → Passed t (names (tmp.take k))) :
  PassedTo t tmp (k + 1)
  := by
  refine ⟨by omega, ?_⟩
  intro j hj hlt hslash
  rcases Nat.lt_succ_iff_lt_or_eq.mp hlt with hbefore | rfl
  · apply h.2 j hj hbefore hslash
  · apply hk hslash

/-- At the end of the loop the parent is passed. -/
theorem PassedTo.parent (h : PassedTo t tmp k) (hend : tmp[k]? = none) (hslash : 47 ∈ tmp) :
  Passed t (names (parentText tmp))
  := by
  obtain ⟨name, hname, -⟩ := exists_eq_parentText hslash
  generalize parentText tmp = parent at hname ⊢
  subst hname
  rcases List.eq_nil_or_concat parent with rfl | hne
  · left
    apply t.root
  · have hpassed := h.2 parent.length
    rw [List.take_left] at hpassed
    have hlength := List.getElem?_eq_none_iff.mp hend
    rw [List.length_append, List.length_cons] at hlength
    apply hpassed
    · obtain ⟨init, c, rfl⟩ := hne
      simp
    · omega
    · simp

/-- A path that ends with a slash leads to where the path before the slash leads, which is
passed. -/
theorem PassedTo.of_getLast? (h : PassedTo t tmp k) (hlt : k < tmp.length)
    (hlast : (tmp.take k).getLast? = some 47) :
  Passed t (names (tmp.take k))
  := by
  obtain ⟨j, rfl⟩ := Nat.exists_eq_add_of_le' h.1
  have htake : tmp.take (j + 1) = tmp.take j ++ [tmp[j]] := by
    rw [List.take_append_getElem]
  have hslash : tmp[j] = 47 := by
    rw [htake, List.getLast?_concat] at hlast
    apply Option.some.inj hlast
  have hnames : names (tmp.take (j + 1)) = names (tmp.take j) := by
    rw [htake, hslash, names_append, show names [] = [] from rfl, List.append_nil]
  rw [hnames]
  rcases Nat.eq_zero_or_pos j with rfl | hpos
  · left
    apply t.root
  · apply h.2 j hpos (Nat.lt_succ_self j)
    rw [List.getElem?_eq_getElem (Nat.lt_of_succ_lt hlt), hslash]

theorem statText_eq_directory {text : List UInt8} (h : statText access t text = .directory) :
  t.entry (names text) = some .directory
  := by
  rw [statText] at h
  split at h
  · contradiction
  · split at h
    · rename_i hstat
      apply stat_eq_directory hstat
    · split at h
      · contradiction
      · contradiction
    · contradiction

/-- A stat of a path fails when nothing else than a directory would be found. -/
theorem entry_of_statText_eq_failed {text : List UInt8} (h : statText access t text = .failed)
    (hne : text ≠ []) (haccess : access (names text) = true)
    (hother : t.entry (names text) = some .other) :
  text.getLast? = some 47
  := by
  rw [statText, if_neg hne, haccess] at h
  have hstat : t.stat true (names text) = .other := by
    rw [stat, if_pos rfl, hother]
  rw [hstat] at h
  by_contra hlast
  rw [if_neg hlast] at h
  contradiction

theorem mkdirText_eq_created {text : List UInt8}
    (h : mkdirText access t text refused = .created t') :
  t.entry (names text) = none ∧
    t'.entry = Function.update t.entry (names text) (some .directory)
  := by
  rw [mkdirText] at h
  split at h
  · contradiction
  · apply mkdir_eq_created h

theorem mkdirText_eq_eexist {text : List UInt8} (h : mkdirText access t text refused = .eexist) :
  access (names text) = true ∧ t.entry (names text) ≠ none
  := by
  rw [mkdirText] at h
  split at h
  · contradiction
  · apply mkdir_eq_eexist h

/-- What a step can do: the parent is found, the call fails, the loop is entered, left, or goes
on, a path is not found, and a directory is made or is there already. -/
inductive Moves (access : List Name → Bool) (tmp : List UInt8) (t : Tree) :
    Phase → Tree → Phase → Prop where
  | found (hparent : t.entry (names (parentText tmp)) = some .directory) :
      Moves access tmp t .parent t (.done 0)
  | fails (phase : Phase) (hrunning : 0 < phase.fuel tmp) : Moves access tmp t phase t (.done 1)
  | enter : Moves access tmp t .parent t (.scan 1)
  | leave (k : ℕ) (hend : tmp[k]? = none) : Moves access tmp t (.scan k) t (.done 0)
  | pass (k : ℕ) (hlt : k < tmp.length)
      (hpassed : tmp[k]? = some 47 → t.entry (names (tmp.take k)) = some .directory) :
      Moves access tmp t (.scan k) t (.scan (k + 1))
  | missing (k : ℕ) (hslash : tmp[k]? = some 47)
      (hstat : statText access t (tmp.take k) = .failed) : Moves access tmp t (.scan k) t (.make k)
  | created (k : ℕ) (t' : Tree) (hnone : t.entry (names (tmp.take k)) = none)
      (hcreated : t'.entry = Function.update t.entry (names (tmp.take k)) (some .directory)) :
      Moves access tmp t (.make k) t' (.scan (k + 1))
  | raced (k : ℕ) (haccess : access (names (tmp.take k)) = true)
      (hentry : t.entry (names (tmp.take k)) ≠ none) :
      Moves access tmp t (.make k) t (.scan (k + 1))

theorem lt_length_of_slash (hk : tmp[k]? = some 47) :
  k < tmp.length
  := (List.getElem?_eq_some_iff.mp hk).1

theorem moves_parent (hslash : 47 ∈ tmp) :
  Moves access tmp t .parent t (afterParent tmp (statText access t (parentText tmp)))
  := by
  cases hstat : statText access t (parentText tmp) with
  | directory => apply Moves.found (statText_eq_directory hstat)
  | other =>
      apply Moves.fails
      apply Nat.succ_pos
  | failed =>
      rw [afterParent, if_neg (List.ne_nil_of_mem hslash)]
      apply Moves.enter

theorem moves_stat (hk : tmp[k]? = some 47) :
  Moves access tmp t (.scan k) t (afterStat k (statText access t (tmp.take k)))
  := by
  cases hstat : statText access t (tmp.take k) with
  | directory => apply Moves.pass k (lt_length_of_slash hk) fun _ => statText_eq_directory hstat
  | other =>
      apply Moves.fails
      apply Nat.succ_pos
  | failed => apply Moves.missing k hk hstat

theorem moves_mkdir (hk : tmp[k]? = some 47) :
  Moves access tmp t (.make k) (afterMkdir t k (mkdirText access t (tmp.take k) refused)).1
    (afterMkdir t k (mkdirText access t (tmp.take k) refused)).2
  := by
  cases hmkdir : mkdirText access t (tmp.take k) refused with
  | created t' =>
      obtain ⟨hnone, hcreated⟩ := mkdirText_eq_created hmkdir
      apply Moves.created k t' hnone hcreated
  | eexist =>
      obtain ⟨haccess, hentry⟩ := mkdirText_eq_eexist hmkdir
      apply Moves.raced k haccess hentry
  | failed =>
      have hlt := lt_length_of_slash hk
      apply Moves.fails
      rw [Phase.fuel]
      omega

/-- Every step is one of those in the list. -/
theorem Phase.Sound.moves (h : phase.Sound access t tmp) (hslash : 47 ∈ tmp)
    (hstep : phase.step access tmp refused t = some (t', phase')) :
  Moves access tmp t phase t' phase'
  := by
  cases phase with
  | parent =>
      obtain ⟨rfl, rfl⟩ := Prod.mk.inj (Option.some.inj hstep)
      apply moves_parent hslash
  | scan k =>
      rw [Phase.step] at hstep
      split at hstep
      · rename_i hend
        obtain ⟨rfl, rfl⟩ := Prod.mk.inj (Option.some.inj hstep)
        apply Moves.leave k hend
      · rename_i c hc
        split at hstep
        · rename_i hisSlash
          obtain ⟨rfl, rfl⟩ := Prod.mk.inj (Option.some.inj hstep)
          apply moves_stat
          rw [hc, of_decide_eq_true hisSlash]
        · rename_i hisSlash
          obtain ⟨rfl, rfl⟩ := Prod.mk.inj (Option.some.inj hstep)
          apply Moves.pass k (List.getElem?_eq_some_iff.mp hc).1
          intro hk
          rw [hc] at hk
          obtain rfl := Option.some.inj hk
          contradiction
  | make k =>
      obtain ⟨rfl, rfl⟩ := Prod.ext_iff.mp (Option.some.inj hstep)
      apply moves_mkdir h.2.1
  | done ret => contradiction

/-- A step leaves the tree, or makes a directory above the file that was missing. -/
theorem Moves.tree (h : Moves access tmp t phase t' phase') (hsound : phase.Sound access t tmp) :
  t' = t ∨ ∃ q, q <+: names (parentText tmp) ∧ t.entry q = none ∧
    t'.entry = Function.update t.entry q (some .directory)
  := by
  cases h with
  | created k t' hnone hcreated =>
      right
      exact ⟨_, names_take_above hsound.2.1, hnone, hcreated⟩
  | found => left; rfl
  | fails => left; rfl
  | enter => left; rfl
  | leave => left; rfl
  | pass => left; rfl
  | missing => left; rfl
  | raced => left; rfl

theorem Moves.grows (h : Moves access tmp t phase t' phase')
    (hsound : phase.Sound access t tmp) :
  Grows t t'
  := by
  rcases h.tree hsound with rfl | ⟨q, -, hnone, hcreated⟩
  · apply Grows.refl
  · apply Grows.of_update hnone hcreated

/-- What a thread knows after a step. -/
theorem Moves.sound (h : Moves access tmp t phase t' phase') (hslash : 47 ∈ tmp)
    (hsound : phase.Sound access t tmp) :
  phase'.Sound access t' tmp
  := by
  have hgrows := h.grows hsound
  cases h with
  | found hparent => exact ⟨fun _ => Or.inl hparent, Or.inl rfl⟩
  | fails => exact ⟨fun hret => absurd hret Int.one_ne_zero, Or.inr rfl⟩
  | enter => exact ⟨le_refl 1, fun j hj hlt => absurd hlt (Nat.not_lt.mpr hj)⟩
  | leave k hend => exact ⟨fun _ => PassedTo.parent hsound hend hslash, Or.inl rfl⟩
  | pass k _ hpassed => apply PassedTo.succ hsound fun hk => Or.inl (hpassed hk)
  | missing k hk hstat =>
      refine ⟨hsound, hk, ?_⟩
      intro haccess hother
      have hlt := lt_length_of_slash hk
      have hne : tmp.take k ≠ [] := by
        apply List.ne_nil_of_length_pos
        rw [List.length_take_of_le hlt.le]
        apply hsound.1
      have hlast := entry_of_statText_eq_failed hstat hne haccess hother
      rcases PassedTo.of_getLast? hsound hlt hlast with hdirectory | hdangling
      · rw [hother] at hdirectory
        contradiction
      · rw [hother] at hdangling
        contradiction
  | created k _ _ hcreated =>
      apply (hsound.1.grows hgrows).succ
      intro _
      left
      rw [hcreated, Function.update_self]
  | raced k haccess hentry =>
      apply hsound.1.succ
      intro _
      have hother := hsound.2.2 haccess
      cases hkind : t.entry (names (tmp.take k)) with
      | none => contradiction
      | some kind =>
          cases kind with
          | directory => left; apply hkind
          | other => contradiction
          | dangling => right; apply hkind

/-- Every step brings the call nearer to its end. -/
theorem Moves.fuel_lt (h : Moves access tmp t phase t' phase')
    (hsound : phase.Sound access t tmp) (hslash : 47 ∈ tmp) :
  phase'.fuel tmp < phase.fuel tmp
  := by
  cases h with
  | found => apply Nat.succ_pos
  | fails _ hrunning => apply hrunning
  | enter =>
      have hpos := List.length_pos_of_mem hslash
      simp only [Phase.fuel]
      omega
  | leave => apply Nat.succ_pos
  | pass k hlt =>
      simp only [Phase.fuel]
      omega
  | missing => apply Nat.lt_succ_self
  | created k =>
      have hlt := lt_length_of_slash hsound.2.1
      simp only [Phase.fuel]
      omega
  | raced k =>
      have hlt := lt_length_of_slash hsound.2.1
      simp only [Phase.fuel]
      omega

/-! ### All calls -/

variable {t₀ : Tree} {s s' : State} {i : ℕ} {th : Thread}

theorem Path.slash_mem (path : Path) :
  47 ∈ path.tmp
  := by
  rw [path.tmp_eq]
  apply List.mem_of_head? path.absolute

/-- What a thread knows about the tree, and that it has not made too many steps. -/
def Thread.Sound (access : List Name → Bool) (t : Tree) (th : Thread) : Prop :=
  th.phase.Sound access t th.path.tmp ∧
    th.steps + th.phase.fuel th.path.tmp ≤ 2 * th.path.tmp.length + 2

/-- What holds in every state: nothing that was in the tree is lost, and what the threads know is
true. -/
def State.Sound (access : List Name → Bool) (t₀ : Tree) (s : State) : Prop :=
  Grows t₀ s.tree ∧ ∀ i th, s.threads i = some th → th.Sound access s.tree

theorem State.sound_init :
  (State.init t₀).Sound access t₀
  := ⟨Grows.refl, fun _ _ h => absurd h.symm (Option.some_ne_none _)⟩

/-- A thread starts a call or goes on. -/
theorem State.Sound.update (h : s.Sound access t₀) (hgrows : Grows s.tree t')
    (hth : th.Sound access t') :
  State.Sound access t₀ ⟨t', Function.update s.threads i (some th)⟩
  := by
  refine ⟨h.1.trans hgrows, ?_⟩
  intro j th' (hth' : Function.update s.threads i (some th) j = some th')
  rcases eq_or_ne j i with rfl | hj
  · rw [Function.update_self] at hth'
    obtain rfl := Option.some.inj hth'
    apply hth
  · rw [Function.update_of_ne hj] at hth'
    obtain ⟨hphase, hfuel⟩ := h.2 j th' hth'
    exact ⟨hphase.grows hgrows, hfuel⟩

theorem Thread.sound_begin {path : Path} :
  Thread.Sound access t ⟨path, begin path.tmp, 0⟩
  := by
  have hbegin : begin path.tmp = .parent := if_pos path.slash_mem
  rw [hbegin]
  constructor
  · trivial
  · rw [Nat.zero_add]
    apply le_refl

theorem Thread.Sound.run (h : th.Sound access t)
    (hmoves : Moves access th.path.tmp t th.phase t' phase') :
  Thread.Sound access t' ⟨th.path, phase', th.steps + 1⟩
  := by
  obtain ⟨hphase, hfuel⟩ := h
  constructor
  · apply hmoves.sound th.path.slash_mem hphase
  · have hlt := hmoves.fuel_lt hphase th.path.slash_mem
    dsimp only
    omega

/-- A step of a thread. -/
theorem State.step_run (h : s.step access (.run i refused) = some s') :
  ∃ th t' phase', s.threads i = some th ∧
    th.phase.step access th.path.tmp refused s.tree = some (t', phase') ∧
    s' = ⟨t', Function.update s.threads i (some ⟨th.path, phase', th.steps + 1⟩)⟩
  := by
  rw [State.step] at h
  split at h
  · contradiction
  · rename_i th hth
    obtain ⟨⟨t', phase'⟩, hstep, heq⟩ := Option.map_eq_some_iff.mp h
    exact ⟨th, t', phase', hth, hstep, heq.symm⟩

theorem State.Sound.step {a : Action} (h : s.Sound access t₀)
    (hstep : s.step access a = some s') :
  s'.Sound access t₀
  := by
  cases a with
  | start i path =>
      rw [State.step] at hstep
      split at hstep
      · obtain rfl := Option.some.inj hstep
        apply h.update Grows.refl Thread.sound_begin
      · contradiction
  | run i refused =>
      obtain ⟨th, t', phase', hth, hphase, rfl⟩ := State.step_run hstep
      have hsound := h.2 i th hth
      have hmoves := hsound.1.moves th.path.slash_mem hphase
      apply h.update (hmoves.grows hsound.1) (hsound.run hmoves)

theorem State.sound_of_reach (h : Reach (State.step access) anyStep (State.init t₀) s) :
  s.Sound access t₀
  := h.invariant State.sound_init fun _ _ _ hsound _ hstep => hsound.step hstep

/-- A call that has returned zero has made the directories above the file, unless the parent was a
link that leads nowhere. -/
theorem State.Sound.directory (h : s.Sound access t₀) (hth : s.threads i = some th)
    (hdangling : t₀.entry (names (parentText th.path.tmp)) ≠ some .dangling)
    (hdone : th.phase = .done 0) {q : List Name} (hq : q <+: names (parentText th.path.tmp)) :
  s.tree.entry q = some .directory
  := by
  obtain ⟨hsound, -⟩ := h.2 i th hth
  rw [hdone] at hsound
  have hparent : s.tree.entry (names (parentText th.path.tmp)) = some .directory := by
    rcases hsound.1 rfl with hdirectory | hlink
    · apply hdirectory
    · apply absurd _ hdangling
      apply h.1.of_entry hlink
      simp
  rcases eq_or_ne q (names (parentText th.path.tmp)) with rfl | hne
  · apply hparent
  · apply directory_above _ hq hne
    rw [hparent]
    simp

theorem Phase.isSome_step (h : ∀ ret, phase ≠ .done ret) :
  (phase.step access tmp refused t).isSome
  := by
  cases phase with
  | parent => rfl
  | scan k =>
      rw [Phase.step]
      split
      · rfl
      · split
        · rfl
        · rfl
  | make k => rfl
  | done ret => apply absurd rfl (h ret)

/-- In every run in which the parent of the file is no link that leads nowhere: a call that has
returned zero has made all directories above the file; every step of the call leaves the tree or
makes one such directory that was missing, and all that was in the tree stays; if there is
something else than a directory above the file, the call has not returned zero, and there is
nothing below.  The call goes on until it returns zero or one, after not more steps than the path
allows. -/
theorem mkdirp_builds (h : Reach (State.step access) anyStep (State.init t₀) s)
    (hth : s.threads i = some th)
    (hdangling : t₀.entry (names (parentText th.path.tmp)) ≠ some .dangling) :
  (th.phase = .done 0 → ∀ q, q <+: names (parentText th.path.tmp) →
      s.tree.entry q = some .directory) ∧
    (∀ refused s', s.step access (.run i refused) = some s' →
      s'.tree = s.tree ∨ ∃ q, q <+: names (parentText th.path.tmp) ∧ s.tree.entry q = none ∧
        s'.tree.entry = Function.update s.tree.entry q (some .directory)) ∧
    (∀ q kind, t₀.entry q = some kind → s.tree.entry q = some kind) ∧
    (∀ q kind, q <+: names (parentText th.path.tmp) → s.tree.entry q = some kind →
      kind ≠ .directory →
        th.phase ≠ .done 0 ∧ ∀ r, q <+: r → r ≠ q → s.tree.entry r = none) ∧
    (∀ ret, th.phase = .done ret → ret = 0 ∨ ret = 1) ∧
    ((∀ ret, th.phase ≠ .done ret) → ∀ refused, (s.step access (.run i refused)).isSome) ∧
    th.steps ≤ 2 * th.path.text.length + 2
  := by
  have hsound := State.sound_of_reach h
  obtain ⟨hknows, hfuel⟩ := hsound.2 i th hth
  refine ⟨fun hdone q hq => hsound.directory hth hdangling hdone hq, ?_,
    fun q kind hentry => hsound.1.entry hentry, ?_, ?_, ?_, ?_⟩
  · intro refused s' hstep
    obtain ⟨th', t', phase', hth', hphase, rfl⟩ := State.step_run hstep
    rw [hth] at hth'
    obtain rfl := Option.some.inj hth'
    apply (hknows.moves th.path.slash_mem hphase).tree hknows
  · intro q kind hq hentry hkind
    have hne : s.tree.entry q ≠ some .directory := by
      rw [hentry]
      intro heq
      apply hkind (Option.some.inj heq)
    constructor
    · intro hdone
      apply hne (hsound.directory hth hdangling hdone hq)
    · intro r hr hrq
      apply entry_below hne hr hrq
  · intro ret hdone
    rw [hdone] at hknows
    apply hknows.2
  · intro hrunning refused
    rw [State.step, hth]
    dsimp only
    rw [Option.isSome_map]
    apply Phase.isSome_step hrunning
  · rw [← th.path.tmp_eq]
    omega

/-! ### A link that leads nowhere -/

def sampleText : List UInt8 := [47, 97, 47, 102]

theorem sampleText_ok :
  sampleText.head? = some 47 ∧ sampleText.length < pathMax - 1 ∧ 0 ∉ sampleText ∧
    ∀ name ∈ names sampleText, name ≠ [46] ∧ name ≠ [46, 46]
  := by decide +kernel

/-- The path `/a/f`. -/
def samplePath : Path where
  text := sampleText
  absolute := sampleText_ok.1
  short := sampleText_ok.2.1
  nonzero := sampleText_ok.2.2.1
  plain := sampleText_ok.2.2.2

/-- A root with at most the entry `a` in it. -/
def sampleEntry (kind : Option EntryKind) (q : List Name) : Option EntryKind :=
  if q = [] then some .directory else if q = [[97]] then kind else none

theorem sampleEntry_closed (kind : Option EntryKind) :
  ∀ q, q ≠ [] → sampleEntry kind q ≠ none → sampleEntry kind q.dropLast = some .directory
  := by
  intro q hne hentry
  rw [sampleEntry, if_neg hne] at hentry
  split at hentry
  · rename_i hq
    rw [hq]
    rfl
  · contradiction

def sampleTree (kind : Option EntryKind) : Tree where
  entry := sampleEntry kind
  root := if_pos rfl
  closed := sampleEntry_closed kind

/-- The call for `/a/f`, up to its end. -/
def sampleRun (kind : Option EntryKind) : Option State :=
  Transition.run (State.step fun _ => true) (fun _ _ => true) (State.init (sampleTree kind))
    (.start 0 samplePath :: List.replicate 6 (.run 0 false))

theorem mkdirp_builds_created :
  ∃ s th, Reach (State.step fun _ => true) anyStep (State.init (sampleTree none)) s ∧
    s.threads 0 = some th ∧ th.phase = .done 0 ∧
    (sampleTree none).entry (names (parentText th.path.tmp)) ≠ some .dangling ∧
    (sampleTree none).entry [[97]] = none ∧
    ∀ q, q <+: names (parentText th.path.tmp) → s.tree.entry q = some .directory
  := by
  have hrun : (sampleRun none).map (fun s => (s.threads 0).map fun th =>
      (th.phase, names (parentText th.path.tmp))) = some (some (.done 0, [[97]])) := by
    decide +kernel
  obtain ⟨s, hs, hthreads⟩ := Option.map_eq_some_iff.mp hrun
  obtain ⟨th, hth, heq⟩ := Option.map_eq_some_iff.mp hthreads
  obtain ⟨hdone, hparent⟩ := Prod.mk.inj heq
  have hreach : Reach (State.step fun _ => true) anyStep (State.init (sampleTree none)) s :=
    reach_of_run hs fun _ _ _ => trivial
  have hdangling : (sampleTree none).entry (names (parentText th.path.tmp)) ≠ some .dangling := by
    rw [hparent]
    decide
  exact ⟨s, th, hreach, hth, hdone, hdangling, rfl,
    (mkdirp_builds hreach hth hdangling).1 hdone⟩

/-- If `a` is a link that leads nowhere, the stat of it fails and it cannot be made.  The call
returns zero, and there is no directory. -/
theorem mkdirp_dangling :
  ∃ s th, Reach (State.step fun _ => true) anyStep (State.init (sampleTree (some .dangling))) s ∧
    s.threads 0 = some th ∧ th.phase = .done 0 ∧ [[97]] <+: names (parentText th.path.tmp) ∧
    s.tree.entry [[97]] = some .dangling
  := by
  have hrun : (sampleRun (some .dangling)).map (fun s => ((s.threads 0).map fun th =>
      (th.phase, names (parentText th.path.tmp)), s.tree.entry [[97]])) =
        some (some (.done 0, [[97]]), some .dangling) := by
    decide +kernel
  obtain ⟨s, hs, hstate⟩ := Option.map_eq_some_iff.mp hrun
  obtain ⟨hthreads, hentry⟩ := Prod.mk.inj hstate
  obtain ⟨th, hth, heq⟩ := Option.map_eq_some_iff.mp hthreads
  obtain ⟨hdone, hparent⟩ := Prod.mk.inj heq
  have habove : [[97]] <+: names (parentText th.path.tmp) := by
    rw [hparent]
  exact ⟨s, th, reach_of_run hs fun _ _ _ => trivial, hth, hdone, habove, hentry⟩

end Mkdirp
