import ModTile.Bytes.CString

/-!
# Storage backends

`init_storage_backend` of `store.c`, which chooses a storage backend by the text with which
the store string starts.  What the file system and the backends themselves answer is given
by an `InitOutcome`.
-/

namespace Store

/-- The storage backends. -/
inductive BackendKind where
  | file
  | rados
  | memcached
  | roHttpProxy
  | roComposite
  | null
  deriving DecidableEq

/-- A storage backend: its functions are those of its kind, and its context was made from the
store string. -/
structure StorageBackend where
  kind : BackendKind
  options : List UInt8
  deriving DecidableEq

/-- The backend has a context, that is, its pointer `storage_ctx` is not null. -/
def StorageBackend.hasContext (store : StorageBackend) : Bool :=
  store.kind ≠ .null

/-- What is met when a backend is initialised: whether `stat` succeeds and finds a directory,
and whether the function of the backend succeeds. -/
structure InitOutcome where
  stat : Option Bool
  started : Bool

/-- The backend for a store string. -/
def backendKind (options : List UInt8) : Option BackendKind :=
  if options = [] then none
  else if options.head? = some 47 then some .file
  else if Bytes.ofString "rados://" <+: options then some .rados
  else if Bytes.ofString "memcached://" <+: options then some .memcached
  else if Bytes.ofString "ro_http_proxy://" <+: options then some .roHttpProxy
  else if Bytes.ofString "composite:\x7b" <+: options then some .roComposite
  else if Bytes.ofString "null://" <+: options then some .null
  else none

/-- The backend for a store string, if there is one and it can be initialised. -/
def initStorageBackend (o : InitOutcome) (options : List UInt8) : Option StorageBackend :=
  match backendKind options with
  | none => none
  | some .file =>
      if o.stat = some true ∧ o.started then some ⟨.file, options⟩ else none
  | some kind => if o.started then some ⟨kind, options⟩ else none

variable {o : InitOutcome} {options : List UInt8} {store : StorageBackend}

/-- A backend is made from the string that it is initialised with, and that string is one of
those that are recognised. -/
theorem initStorageBackend_spec (h : initStorageBackend o options = some store) :
  store.options = options ∧ (backendKind options).isSome
  := by
  rw [initStorageBackend] at h
  split at h
  · contradiction
  all_goals
    rename_i hkind
    split_ifs at h
    obtain rfl := Option.some.inj h
    exact ⟨rfl, by rw [hkind]; rfl⟩

/-- A string that is recognised can be initialised. -/
theorem initStorageBackend_of_isSome (h : (backendKind options).isSome) :
  ∃ store, initStorageBackend ⟨some true, true⟩ options = some store
  := by
  obtain ⟨kind, hkind⟩ := Option.isSome_iff_exists.mp h
  use ⟨kind, options⟩
  rw [initStorageBackend, hkind]
  cases kind <;> rfl

end Store
