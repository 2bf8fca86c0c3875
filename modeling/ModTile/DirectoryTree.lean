import Mathlib.Data.List.Infix
import Mathlib.Logic.Function.Basic

/-!
# Trees of directories

A tree has an entry for some of the lists of names.  The empty list is the root, which is a
directory, and every other entry is in a directory.  An entry is a directory, something else, or a
link that leads nowhere: there is an entry then, but a stat of it fails.

Some of the lists of names cannot be looked up, since one of the directories on the way may not be
searched.
-/

/-- The kinds of entries. -/
inductive EntryKind where
  | directory
  | other
  | dangling
  deriving DecidableEq

/-- A tree of directories with names in `ν`. -/
structure DirectoryTree (ν : Type*) where
  entry : List ν → Option EntryKind
  root : entry [] = some .directory
  closed : ∀ q, q ≠ [] → entry q ≠ none → entry q.dropLast = some .directory

namespace DirectoryTree

variable {ν : Type*}

/-- What a stat finds. -/
inductive Stat where
  | directory
  | other
  | failed
  deriving DecidableEq

/-- A stat of an entry, where `access` says whether it can be looked up. -/
def stat (t : DirectoryTree ν) (access : Bool) (q : List ν) : Stat :=
  if access then
    match t.entry q with
    | some .directory => .directory
    | some .other => .other
    | some .dangling | none => .failed
  else .failed

variable [DecidableEq ν]

/-- The tree with one more directory. -/
def create (t : DirectoryTree ν) (q : List ν) (hparent : t.entry q.dropLast = some .directory)
    (hnone : t.entry q = none) : DirectoryTree ν where
  entry := Function.update t.entry q (some .directory)
  root := by
    rw [Function.update_of_ne]
    · apply t.root
    · rintro rfl
      rw [t.root] at hnone
      contradiction
  closed := by
    intro r hr hentry
    by_cases hdropLast : r.dropLast = q
    · rw [hdropLast, Function.update_self]
    · rw [Function.update_of_ne hdropLast]
      by_cases hrq : r = q
      · rw [hrq]
        apply hparent
      · rw [Function.update_of_ne hrq] at hentry
        apply t.closed r hr hentry

/-- What making a directory does: the directory is made, there is an entry already, or the call
fails for another reason. -/
inductive Mkdir (ν : Type*) where
  | created (t : DirectoryTree ν)
  | eexist
  | failed

/-- Making a directory, where `refused` says whether the call fails although there is a place for
the directory. -/
def mkdir (t : DirectoryTree ν) (access refused : Bool) (q : List ν) : Mkdir ν :=
  if access then
    if hnone : t.entry q = none then
      if hparent : t.entry q.dropLast = some .directory then
        if refused then .failed else .created (t.create q hparent hnone)
      else .failed
    else .eexist
  else .failed

/-- Entries are kept, and new ones are directories. -/
def Grows (t t' : DirectoryTree ν) : Prop :=
  ∀ q, t'.entry q = t.entry q ∨ t.entry q = none ∧ t'.entry q = some .directory

omit [DecidableEq ν]

variable {t t' t'' : DirectoryTree ν} {q r : List ν} {access refused : Bool} {kind : EntryKind}

theorem Grows.refl :
  Grows t t
  := fun _ => Or.inl rfl

theorem Grows.trans (h : Grows t t') (h' : Grows t' t'') :
  Grows t t''
  := by
  intro q
  rcases h' q with hq' | ⟨hnone', hdir'⟩
  · rw [hq']
    apply h
  · rcases h q with hq | ⟨-, hdir⟩
    · right
      rw [← hq]
      exact ⟨hnone', hdir'⟩
    · rw [hdir] at hnone'
      contradiction

theorem Grows.entry (h : Grows t t') (hq : t.entry q = some kind) :
  t'.entry q = some kind
  := by
  rcases h q with heq | ⟨hnone, -⟩
  · rw [heq, hq]
  · rw [hq] at hnone
    contradiction

/-- An entry that is no directory is an old one. -/
theorem Grows.of_entry (h : Grows t t') (hq : t'.entry q = some kind)
    (hkind : kind ≠ .directory) :
  t.entry q = some kind
  := by
  rcases h q with heq | ⟨-, hdir⟩
  · rw [← heq, hq]
  · rw [hq] at hdir
    apply absurd (Option.some.inj hdir) hkind

/-- All that is above an entry is a directory. -/
theorem directory_above (hq : t.entry q ≠ none) (hr : r <+: q) (hne : r ≠ q) :
  t.entry r = some .directory
  := by
  induction q using List.reverseRecOn with
  | nil => exact absurd (List.prefix_nil.mp hr) hne
  | append_singleton q c ih =>
      have hparent : t.entry q = some .directory := by
        have hclosed := t.closed (q ++ [c]) (by simp) hq
        rwa [List.dropLast_concat] at hclosed
      rcases List.prefix_concat_iff.mp hr with heq | habove
      · contradiction
      · by_cases heq : r = q
        · rw [heq]
          apply hparent
        · apply ih _ habove heq
          rw [hparent]
          simp

/-- There is nothing below an entry that is no directory. -/
theorem entry_below (hq : t.entry q ≠ some .directory) (hr : q <+: r) (hne : r ≠ q) :
  t.entry r = none
  := by
  by_contra hentry
  apply hq (directory_above hentry hr hne.symm)

theorem stat_eq_directory (h : t.stat access q = .directory) :
  t.entry q = some .directory
  := by
  rw [stat] at h
  split_ifs at h
  split at h
  · assumption
  · contradiction
  · contradiction
  · contradiction

/-- A directory that is made was not there. -/
theorem mkdir_eq_created [DecidableEq ν] (h : t.mkdir access refused q = .created t') :
  t.entry q = none ∧ t'.entry = Function.update t.entry q (some .directory)
  := by
  rw [mkdir] at h
  split_ifs at h with haccess hnone hparent hrefused
  obtain rfl := Mkdir.created.inj h
  exact ⟨hnone, rfl⟩

theorem mkdir_eq_eexist [DecidableEq ν] (h : t.mkdir access refused q = .eexist) :
  access = true ∧ t.entry q ≠ none
  := by
  rw [mkdir] at h
  split_ifs at h with haccess hnone
  exact ⟨haccess, hnone⟩

theorem Grows.of_update [DecidableEq ν] (hnone : t.entry q = none)
    (h : t'.entry = Function.update t.entry q (some .directory)) :
  Grows t t'
  := by
  intro r
  rw [h]
  by_cases hr : r = q
  · right
    rw [hr, Function.update_self]
    exact ⟨hnone, rfl⟩
  · left
    apply Function.update_of_ne hr

end DirectoryTree
