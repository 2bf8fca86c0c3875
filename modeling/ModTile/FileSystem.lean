import ModTile.Bytes.Buffer
import Mathlib.Logic.Function.Basic
import Mathlib.Tactic.SplitIfs

/-!
# Files with names

A file system gives names to files, and has the contents of every file.  A file may be open
without having a name, so that contents are those of a file and not of a name: a file that was
there under a name at the start, or the `n`-th file that has been created since.

`UpdatedAt p target` says what the calls on one name `p` have in common, which may also move the
file to the name `target`.  Such calls leave all files alone but the one with the name `p`, and
all names but these two.  So a file that has none of the names on which calls are made is
settled: it keeps its contents, and gets none of these names.
-/

/-- A file that was there under a name, or the `n`-th that has been created. -/
inductive Inode (ν : Type*) where
  | initial (name : ν)
  | created (n : ℕ)
  deriving DecidableEq

/-- The files of the names, the contents of the files, and the number of files created. -/
structure FileSystem (ν α : Type*) where
  names : ν → Option (Inode ν)
  contents : Inode ν → List α
  next : ℕ

namespace FileSystem

variable {ν α : Type*}

/-- The file system with the given files, each of which has one name. -/
def ofFiles (files : ν → Option (List α)) : FileSystem ν α where
  names p := (files p).map fun _ => .initial p
  contents
    | .initial p => (files p).getD []
    | .created _ => []
  next := 0

/-- The contents of the file with a name. -/
def file (fs : FileSystem ν α) (p : ν) : Option (List α) :=
  (fs.names p).map fs.contents

/-- The file has been there from the start, or has been created. -/
def Allocated (fs : FileSystem ν α) : Inode ν → Prop
  | .initial _ => True
  | .created n => n < fs.next

/-- No file has two names, and the files with names are there. -/
structure WellFormed (fs : FileSystem ν α) : Prop where
  unique : ∀ p q i, fs.names p = some i → fs.names q = some i → p = q
  allocated : ∀ p i, fs.names p = some i → fs.Allocated i

section Calls

variable [DecidableEq ν]

/-- Opening a file to write it from its start on, which is created if there is none with its
name and else made empty. -/
def create (fs : FileSystem ν α) (p : ν) : FileSystem ν α × Inode ν :=
  match fs.names p with
  | some i => ({ fs with contents := Function.update fs.contents i [] }, i)
  | none =>
      (⟨Function.update fs.names p (some (.created fs.next)),
        Function.update fs.contents (.created fs.next) [], fs.next + 1⟩, .created fs.next)

/-- Writing data at a place of a file. -/
def writeAt (fs : FileSystem ν α) (i : Inode ν) (pos : ℕ) (data : List α) : FileSystem ν α :=
  { fs with contents := Function.update fs.contents i (Bytes.copyTo (fs.contents i) pos data) }

/-- Giving a file another name, from which the file is removed that has had it. -/
def rename (fs : FileSystem ν α) (p q : ν) : FileSystem ν α :=
  { fs with names := Function.update (Function.update fs.names q (fs.names p)) p none }

/-- Removing a name. -/
def unlink (fs : FileSystem ν α) (p : ν) : FileSystem ν α :=
  { fs with names := Function.update fs.names p none }

end Calls

/-- A call on the name `p` that may move its file to the name `target`. -/
structure UpdatedAt (p target : ν) (fs fs' : FileSystem ν α) : Prop where
  wellFormed : fs'.WellFormed
  allocated : ∀ i, fs.Allocated i → fs'.Allocated i
  names_other : ∀ q, q ≠ p → q ≠ target → fs'.names q = fs.names q
  names_self : ∀ i, fs'.names p = some i → fs.Allocated i → fs.names p = some i
  contents : ∀ i, fs.Allocated i → fs.names p ≠ some i → fs'.contents i = fs.contents i

/-- The file has no name in a set. -/
structure Settled (ps : Set ν) (fs : FileSystem ν α) (i : Inode ν) : Prop where
  allocated : fs.Allocated i
  names : ∀ p ∈ ps, fs.names p ≠ some i

variable {fs fs' : FileSystem ν α} {p q target : ν} {i j : Inode ν} {ps : Set ν}
  {files : ν → Option (List α)}

theorem wellFormed_ofFiles :
  (ofFiles files).WellFormed
  := by
  have hnames : ∀ p i, (ofFiles files).names p = some i → i = .initial p := by
    intro p i h
    obtain ⟨_, -, rfl⟩ := Option.map_eq_some_iff.mp h
    rfl
  constructor
  case unique =>
    intro p q i hp hq
    rw [hnames p i hp] at hq
    apply Inode.initial.inj (hnames q _ hq)
  case allocated =>
    intro p i hp
    rw [hnames p i hp]
    trivial

theorem file_of_names (h : fs.names p = some i) :
  fs.file p = some (fs.contents i)
  := by
  rw [file, h, Option.map_some]

theorem allocated_succ {names : ν → Option (Inode ν)} {contents : Inode ν → List α}
    (h : fs.Allocated i) :
  Allocated ⟨names, contents, fs.next + 1⟩ i
  := by
  cases i with
  | initial name => trivial
  | created n => apply Nat.lt_succ_of_lt h

/-! ### Calls on one name -/

/-- A call that fails. -/
theorem updatedAt_refl (h : fs.WellFormed) :
  UpdatedAt p target fs fs
  := by
  constructor
  case wellFormed => apply h
  case allocated => exact fun _ hi => hi
  case names_other => exact fun _ _ _ => rfl
  case names_self => exact fun _ hi _ => hi
  case contents => exact fun _ _ _ => rfl

section Calls

variable [DecidableEq ν]

/-- The file that is opened has the name, and is empty. -/
theorem create_spec {f : FileSystem ν α} {p : ν} :
  (f.create p).1.names p = some (f.create p).2 ∧ (f.create p).1.contents (f.create p).2 = []
  := by
  rw [create]
  split
  · rename_i i hi
    exact ⟨hi, Function.update_self _ _ _⟩
  · exact ⟨Function.update_self _ _ _, Function.update_self _ _ _⟩

/-- Changing the contents of a file is a call on its name. -/
theorem updatedAt_contents (h : fs.WellFormed) (hp : fs.names p = some i) (data : List α) :
  UpdatedAt p target fs { fs with contents := Function.update fs.contents i data }
  := by
  constructor
  case wellFormed => exact ⟨h.unique, h.allocated⟩
  case allocated => exact fun _ hj => hj
  case names_other => exact fun _ _ _ => rfl
  case names_self => exact fun _ hj _ => hj
  case contents =>
    intro j _ hj
    apply Function.update_of_ne
    rintro rfl
    apply hj hp

/-- Opening a file is a call on its name. -/
theorem updatedAt_create (h : fs.WellFormed) :
  UpdatedAt p target fs (fs.create p).1
  := by
  have hfresh : ¬ fs.Allocated (.created fs.next) := Nat.lt_irrefl _
  rw [create]
  split
  · rename_i i hi
    apply updatedAt_contents h hi
  · rename_i hnone
    constructor
    case wellFormed =>
      constructor
      case unique =>
        intro q r j hq hr
        dsimp only at hq hr
        rcases eq_or_ne q p with rfl | hqp
        · rcases eq_or_ne r q with rfl | hrq
          · rfl
          · rw [Function.update_self] at hq
            rw [Function.update_of_ne hrq] at hr
            obtain rfl := Option.some.inj hq
            exact absurd (h.allocated r _ hr) hfresh
        · rw [Function.update_of_ne hqp] at hq
          rcases eq_or_ne r p with rfl | hrp
          · rw [Function.update_self] at hr
            obtain rfl := Option.some.inj hr
            exact absurd (h.allocated q _ hq) hfresh
          · rw [Function.update_of_ne hrp] at hr
            apply h.unique q r j hq hr
      case allocated =>
        intro q j hq
        dsimp only at hq
        rcases eq_or_ne q p with rfl | hqp
        · rw [Function.update_self] at hq
          obtain rfl := Option.some.inj hq
          apply Nat.lt_succ_self
        · rw [Function.update_of_ne hqp] at hq
          apply allocated_succ (h.allocated q j hq)
    case allocated => exact fun _ hj => allocated_succ hj
    case names_other => exact fun _ hq _ => Function.update_of_ne hq _ _
    case names_self =>
      intro j hj hallocated
      dsimp only at hj
      rw [Function.update_self] at hj
      obtain rfl := Option.some.inj hj
      exact absurd hallocated hfresh
    case contents =>
      intro j hj _
      apply Function.update_of_ne
      rintro rfl
      apply hfresh hj

/-- Writing to a file is a call on its name. -/
theorem updatedAt_writeAt (h : fs.WellFormed) (hp : fs.names p = some i) {pos : ℕ}
    {data : List α} :
  UpdatedAt p target fs (fs.writeAt i pos data)
  := updatedAt_contents h hp _

/-- The contents of the file to which data has been written. -/
theorem file_writeAt (hp : fs.names p = some i) {pos : ℕ} {data : List α} :
  (fs.writeAt i pos data).file p = some (Bytes.copyTo (fs.contents i) pos data)
  := by
  have hnames : (fs.writeAt i pos data).names p = some i := hp
  rw [file_of_names hnames]
  apply congrArg some (Function.update_self _ _ _)

theorem names_unlink :
  (fs.unlink p).names = Function.update fs.names p none
  := rfl

/-- Removing a name is a call on it. -/
theorem updatedAt_unlink (h : fs.WellFormed) :
  UpdatedAt p target fs (fs.unlink p)
  := by
  have hnames : ∀ q j, (fs.unlink p).names q = some j → fs.names q = some j := by
    intro q j hq
    rw [names_unlink] at hq
    rcases eq_or_ne q p with rfl | hqp
    · rw [Function.update_self] at hq
      contradiction
    · rw [Function.update_of_ne hqp] at hq
      apply hq
  constructor
  case wellFormed =>
    constructor
    case unique => exact fun q r j hq hr => h.unique q r j (hnames q j hq) (hnames r j hr)
    case allocated => exact fun q j hq => h.allocated q j (hnames q j hq)
  case allocated => exact fun _ hj => hj
  case names_other => exact fun _ hq _ => Function.update_of_ne hq _ _
  case names_self => exact fun j hj _ => hnames p j hj
  case contents => exact fun _ _ _ => rfl

/-- The names after a file has got another name. -/
theorem names_rename {f : FileSystem ν α} {p t : ν} (hne : t ≠ p) :
  (f.rename p t).names p = none ∧ (f.rename p t).names t = f.names p ∧
    ∀ q, q ≠ p → q ≠ t → (f.rename p t).names q = f.names q
  := by
  rw [rename]
  dsimp only
  refine ⟨Function.update_self _ _ _, ?_, ?_⟩
  · rw [Function.update_of_ne hne, Function.update_self]
  · intro q hqp hqt
    rw [Function.update_of_ne hqp, Function.update_of_ne hqt]

/-- Moving a file to another name is a call on its name. -/
theorem updatedAt_rename (h : fs.WellFormed) (hne : target ≠ p) :
  UpdatedAt p target fs (fs.rename p target)
  := by
  obtain ⟨hself, htarget, hother⟩ := names_rename (f := fs) hne
  have hold : ∀ q j, (fs.rename p target).names q = some j →
      q ≠ p ∧ fs.names (if q = target then p else q) = some j := by
    intro q j hq
    have hqp : q ≠ p := by
      rintro rfl
      rw [hself] at hq
      contradiction
    use hqp
    split_ifs with hqt
    · rw [hqt, htarget] at hq
      apply hq
    · rw [← hother q hqp hqt, hq]
  constructor
  case wellFormed =>
    constructor
    case unique =>
      intro q r j hq hr
      obtain ⟨hqp, hq⟩ := hold q j hq
      obtain ⟨hrp, hr⟩ := hold r j hr
      have heq := h.unique _ _ j hq hr
      split_ifs at heq with hqt hrt hrt
      · rw [hqt, hrt]
      · exact absurd heq.symm hrp
      · exact absurd heq hqp
      · apply heq
    case allocated =>
      intro q j hq
      apply h.allocated _ j (hold q j hq).2
  case allocated => exact fun _ hj => hj
  case names_other => apply hother
  case names_self =>
    intro j hj _
    rw [hself] at hj
    contradiction
  case contents => exact fun _ _ _ => rfl

end Calls

/-! ### What calls on names leave alone -/

/-- A settled file stays so, and keeps its contents. -/
theorem Settled.updatedAt (h : fs.Settled ps i) (hupdated : UpdatedAt p target fs fs')
    (hp : p ∈ ps) (htarget : target ∉ ps) :
  fs'.Settled ps i ∧ fs'.contents i = fs.contents i
  := by
  constructor
  · constructor
    case allocated => apply hupdated.allocated i h.allocated
    case names =>
      intro q hq hi
      rcases eq_or_ne q p with rfl | hqp
      · apply h.names q hq (hupdated.names_self i hi h.allocated)
      · rw [hupdated.names_other q hqp (fun heq => htarget (heq ▸ hq))] at hi
        apply h.names q hq hi
  · apply hupdated.contents i h.allocated (h.names p hp)

/-- A file with another name keeps its name and its contents. -/
theorem UpdatedAt.file_other (hupdated : UpdatedAt p target fs fs') (h : fs.WellFormed)
    (hqp : q ≠ p) (hqt : q ≠ target) :
  fs'.file q = fs.file q
  := by
  rw [file, file, hupdated.names_other q hqp hqt]
  cases hq : fs.names q with
  | none => rfl
  | some i =>
      rw [Option.map_some, Option.map_some, hupdated.contents i (h.allocated q i hq)]
      intro hp
      apply hqp (h.unique q p i hq hp)

/-! ### The files after the calls -/

section Files

variable [DecidableEq ν]

/-- The files when data has been written to a file that has just been opened. -/
theorem file_create_writeAt (h : fs.WellFormed) {data : List α} :
  ((fs.create p).1.writeAt (fs.create p).2 0 data).file = Function.update fs.file p (some data)
  := by
  obtain ⟨hnames, hcontents⟩ := create_spec (f := fs) (p := p)
  have hcreate : UpdatedAt p p fs (fs.create p).1 := updatedAt_create h
  have hwrite : UpdatedAt p p (fs.create p).1 ((fs.create p).1.writeAt (fs.create p).2 0 data) :=
    updatedAt_writeAt hcreate.wellFormed hnames
  funext q
  rcases eq_or_ne q p with rfl | hne
  · rw [file_writeAt hnames, hcontents, Bytes.copyTo_end List.length_nil, List.nil_append,
      Function.update_self]
  · rw [hwrite.file_other hcreate.wellFormed hne hne, hcreate.file_other h hne hne,
      Function.update_of_ne hne]

/-- The files when a file has got another name. -/
theorem file_rename (hne : target ≠ p) :
  (fs.rename p target).file = Function.update (Function.update fs.file target (fs.file p)) p none
  := by
  obtain ⟨hself, htarget, hother⟩ := names_rename (f := fs) hne
  funext q
  rcases eq_or_ne q p with rfl | hqp
  · rw [Function.update_self, file, hself, Option.map_none]
  · rw [Function.update_of_ne hqp]
    rcases eq_or_ne q target with rfl | hqt
    · rw [Function.update_self, file, htarget]
      rfl
    · rw [Function.update_of_ne hqt, file, hother q hqp hqt]
      rfl

/-- The files when a name has been removed. -/
theorem file_unlink :
  (fs.unlink p).file = Function.update fs.file p none
  := by
  funext q
  rcases eq_or_ne q p with rfl | hne
  · rw [Function.update_self, file, names_unlink, Function.update_self, Option.map_none]
  · rw [Function.update_of_ne hne, file, names_unlink, Function.update_of_ne hne]
    rfl

end Files

end FileSystem
