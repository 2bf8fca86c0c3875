import ModTile.Store
import ModTile.TileModule.Config
import ModTile.Transition

/-!
# The storage backends of a worker thread

`get_storage_backend` keeps the storage backends of a worker thread in an array that hangs
off the pool of the thread.  The array is made at the first request, with one place for every
layer of the server that the request is for, and every later request of the thread uses it,
whichever server it is for.  A place is filled when it is used for the first time.

So a thread that serves several servers finds the right backend in the array when all of
them have the same store strings in the same order.
-/

namespace TileModule

open Store Transition

/-- The user data of the pool of a thread: the array of its storage backends, once there
is one. -/
abbrev Userdata : Type := Option (List (Option StorageBackend))

/-- The backend for a layer, which is null if it cannot be initialised, and the array after
the call.  There is no result when the place for the layer is outside of the array. -/
def getStorageBackend (o : InitOutcome) (configs : List TileConfigRec) (layer : ℕ)
    (userdata : Userdata) : Option (Option StorageBackend × List (Option StorageBackend)) :=
  let stores := userdata.getD (List.replicate configs.length none)
  match stores[layer]?, configs[layer]? with
  | some (some store), _ => some (some store, stores)
  | some none, some config =>
      let store := initStorageBackend o config.store
      some (store, stores.set layer store)
  | _, _ => none

/-- A request for a layer of a server with the given layers. -/
structure LayerRequest where
  configs : List TileConfigRec
  layer : Fin configs.length
  outcome : InitOutcome

namespace LayerRequest

/-- The call for a request. -/
def get (r : LayerRequest) (userdata : Userdata) :
    Option (Option StorageBackend × List (Option StorageBackend)) :=
  getStorageBackend r.outcome r.configs r.layer userdata

/-- The store string of the layer. -/
def store (r : LayerRequest) : List UInt8 := (r.configs.get r.layer).store

/-- The user data of a thread after a request. -/
def step (userdata : Userdata) (r : LayerRequest) : Option Userdata :=
  (r.get userdata).map fun result => some result.2

variable {r : LayerRequest} {store : StorageBackend} {stores : List (Option StorageBackend)}

theorem getElem?_configs :
  r.configs[r.layer.val]? = some (r.configs.get r.layer)
  := by
  rw [List.getElem?_eq_getElem r.layer.isLt]
  rfl

/-- A place that is filled is not changed. -/
theorem get_of_some (h : stores[r.layer.val]? = some (some store)) :
  r.get (some stores) = some (some store, stores)
  := by
  rw [get, getStorageBackend, Option.getD_some, h]

/-- A place that is empty is filled with a backend for the layer. -/
theorem get_of_none (h : stores[r.layer.val]? = some none) :
  r.get (some stores) = some (initStorageBackend r.outcome r.store,
    stores.set r.layer (initStorageBackend r.outcome r.store))
  := by
  rw [get, getStorageBackend, Option.getD_some, h, getElem?_configs]
  rfl

/-- A request that finds no place is outside of the array. -/
theorem get_eq_none (h : stores[r.layer.val]? = none) :
  r.get (some stores) = none
  := by
  rw [get, getStorageBackend, Option.getD_some, h]

/-- The first request makes an array with a place for every layer of its server. -/
theorem get_none :
  r.get none = r.get (some (List.replicate r.configs.length none))
  := rfl

end LayerRequest

/-! ### Threads that serve several servers -/

section Servers

variable (servers : Set (List TileConfigRec))

/-- Every request of a thread that serves the servers stays inside of the array, and a backend
that it gets was initialised from the store string of its own layer. -/
def RightStore : Prop :=
  ∀ userdata, Reach LayerRequest.step (fun _ r => r.configs ∈ servers) none userdata →
    ∀ r : LayerRequest, r.configs ∈ servers →
      ∃ store stores, r.get userdata = some (store, stores) ∧
        ∀ backend ∈ store, backend.options = r.store

/-- The servers have the same number of layers, and two layers with the same number have the
same store string, unless neither of the two strings is that of a backend. -/
def SameStores (configs configs' : List TileConfigRec) : Prop :=
  configs.length = configs'.length ∧
    ∀ (i : ℕ) config config', configs[i]? = some config → configs'[i]? = some config' →
      (backendKind config.store).isSome ∨ (backendKind config'.store).isSome →
      config.store = config'.store

/-- What the array of a thread can hold: it has the length for one of the servers, and every
backend in it was initialised for a layer of one of them. -/
structure Cached (stores : List (Option StorageBackend)) : Prop where
  length : ∃ configs ∈ servers, configs ≠ [] ∧ stores.length = configs.length
  store : ∀ (i : ℕ) backend, stores[i]? = some (some backend) →
    ∃ configs ∈ servers, ∃ config, configs[i]? = some config ∧
      backend.options = config.store ∧ (backendKind config.store).isSome

variable {servers} {stores : List (Option StorageBackend)} {r : LayerRequest}

/-- The array that a first request makes. -/
theorem cached_replicate (h : r.configs ∈ servers) :
  Cached servers (List.replicate r.configs.length none)
  := by
  constructor
  case length =>
    use r.configs, h
    constructor
    · intro hnil
      have hlt := r.layer.isLt
      simp [hnil] at hlt
    · apply List.length_replicate
  case store =>
    intro i backend hi
    have hmem := List.mem_of_getElem? hi
    rw [List.mem_replicate] at hmem
    simp at hmem

/-- A request keeps what the array can hold. -/
theorem Cached.get (hc : Cached servers stores) (hr : r.configs ∈ servers)
    {result : Option StorageBackend × List (Option StorageBackend)}
    (h : r.get (some stores) = some result) :
  Cached servers result.2
  := by
  rcases hplace : stores[r.layer.val]? with - | - | backend
  case none =>
    rw [LayerRequest.get_eq_none hplace] at h
    contradiction
  case some.none =>
    rw [LayerRequest.get_of_none hplace, Option.some.injEq] at h
    subst h
    constructor
    case length =>
      rw [List.length_set]
      apply hc.length
    case store =>
      intro i backend hi
      rcases eq_or_ne r.layer.val i with rfl | hne
      · rw [List.getElem?_set_self (List.getElem?_eq_some_iff.mp hplace).1,
          Option.some.injEq] at hi
        obtain ⟨hoptions, hkind⟩ := initStorageBackend_spec hi
        exact ⟨r.configs, hr, _, LayerRequest.getElem?_configs, hoptions, hkind⟩
      · rw [List.getElem?_set_ne hne] at hi
        apply hc.store i backend hi
  case some.some =>
    rw [LayerRequest.get_of_some hplace, Option.some.injEq] at h
    subst h
    apply hc

/-- What the array of a thread can hold after any requests. -/
theorem reach_cached {userdata : Userdata}
    (h : Reach LayerRequest.step (fun _ r => r.configs ∈ servers) none userdata) :
  ∀ stores ∈ userdata, Cached servers stores
  := by
  apply h.invariant (I := fun userdata => ∀ stores ∈ userdata, Cached servers stores)
  · simp
  · intro userdata r userdata' hcached hr hstep stores' hstores'
    obtain ⟨result, hget, hresult⟩ := Option.map_eq_some_iff.mp hstep
    subst hresult
    obtain rfl := Option.some.inj hstores'
    cases userdata with
    | none => apply (cached_replicate hr).get hr hget
    | some stores => apply (hcached stores rfl).get hr hget

/-- A request of one of the servers finds the right backend in an array that is the right one
for all of them. -/
theorem Cached.right (hc : Cached servers stores)
    (hsame : ∀ configs ∈ servers, configs ≠ [] → SameStores configs r.configs) :
  ∃ store stores', r.get (some stores) = some (store, stores') ∧
    ∀ backend ∈ store, backend.options = r.store
  := by
  rcases hplace : stores[r.layer.val]? with - | - | backend
  case none =>
    obtain ⟨configs, hmem, hne, hlength⟩ := hc.length
    have hlt := r.layer.isLt
    rw [List.getElem?_eq_none_iff, hlength, (hsame configs hmem hne).1] at hplace
    omega
  case some.none =>
    rw [LayerRequest.get_of_none hplace]
    refine ⟨_, _, rfl, ?_⟩
    intro backend hbackend
    apply (initStorageBackend_spec hbackend).1
  case some.some =>
    rw [LayerRequest.get_of_some hplace]
    refine ⟨_, _, rfl, ?_⟩
    intro backend' hbackend'
    obtain rfl := Option.some.inj hbackend'
    obtain ⟨configs, hmem, config, hconfig, hoptions, hkind⟩ := hc.store _ _ hplace
    have hne : configs ≠ [] := List.ne_nil_of_mem (List.mem_of_getElem? hconfig)
    rw [hoptions]
    apply (hsame configs hmem hne).2 _ _ _ hconfig LayerRequest.getElem?_configs (Or.inl hkind)

/-- The user data after a first request for a layer of a server. -/
theorem reach_first (hr : r.configs ∈ servers) :
  Reach LayerRequest.step (fun _ r => r.configs ∈ servers) none
    (some ((List.replicate r.configs.length none).set r.layer
      (initStorageBackend r.outcome r.store)))
  := by
  apply Reach.tail r Reach.refl hr
  have hplace : (List.replicate r.configs.length (none : Option StorageBackend))[r.layer.val]? =
      some none := by
    rw [List.getElem?_replicate, if_pos r.layer.isLt]
  rw [LayerRequest.step, LayerRequest.get_none, LayerRequest.get_of_none hplace]
  rfl

variable {configs configs' : List TileConfigRec}

/-- A server has no more layers than one whose requests can come first. -/
theorem RightStore.length_le (h : RightStore servers) (hmem : configs ∈ servers)
    (hmem' : configs' ∈ servers) (hne : configs ≠ []) :
  configs'.length ≤ configs.length
  := by
  by_contra hlt
  let first : LayerRequest :=
    ⟨configs, ⟨0, List.length_pos_iff.mpr hne⟩, ⟨none, false⟩⟩
  let second : LayerRequest := ⟨configs', ⟨configs.length, by omega⟩, ⟨none, false⟩⟩
  obtain ⟨store, stores, hget, -⟩ := h _ (reach_first (r := first) hmem) second hmem'
  rw [LayerRequest.get_eq_none] at hget
  · contradiction
  · rw [List.getElem?_eq_none_iff, List.length_set, List.length_replicate]

/-- A layer has the store string of the layer of another server that takes the same place in
the array, if that one is the string of a backend. -/
theorem RightStore.store_eq (h : RightStore servers) (hmem : configs ∈ servers)
    (hmem' : configs' ∈ servers) {i : ℕ} {config config' : TileConfigRec}
    (hi : configs[i]? = some config) (hi' : configs'[i]? = some config')
    (hkind : (backendKind config.store).isSome) :
  config.store = config'.store
  := by
  obtain ⟨hlt, rfl⟩ := List.getElem?_eq_some_iff.mp hi
  obtain ⟨hlt', rfl⟩ := List.getElem?_eq_some_iff.mp hi'
  obtain ⟨backend, hinit⟩ := initStorageBackend_of_isSome hkind
  let first : LayerRequest := ⟨configs, ⟨i, hlt⟩, ⟨some true, true⟩⟩
  let second : LayerRequest := ⟨configs', ⟨i, hlt'⟩, ⟨none, false⟩⟩
  obtain ⟨store, stores, hget, hright⟩ := h _ (reach_first (r := first) hmem) second hmem'
  have hset : i < (List.replicate configs.length (none : Option StorageBackend)).length := by
    rw [List.length_replicate]
    apply hlt
  have hplace : ((List.replicate configs.length none).set i
      (initStorageBackend first.outcome first.store))[second.layer.val]? = some (some backend) := by
    rw [List.getElem?_set_self hset, ← hinit]
    rfl
  rw [LayerRequest.get_of_some hplace] at hget
  obtain ⟨rfl, -⟩ := Prod.mk.inj (Option.some.inj hget)
  rw [← (initStorageBackend_spec hinit).1]
  apply hright backend rfl

/-- A thread uses the right stores exactly when all the servers that it serves have the same
store strings. -/
theorem rightStore_iff :
  RightStore servers ↔
    ∀ configs ∈ servers, ∀ configs' ∈ servers, configs ≠ [] → configs' ≠ [] →
      SameStores configs configs'
  := by
  constructor
  · intro h configs hmem configs' hmem' hne hne'
    constructor
    · apply Nat.le_antisymm
      · apply h.length_le hmem' hmem hne'
      · apply h.length_le hmem hmem' hne
    · rintro i config config' hi hi' (hkind | hkind)
      · apply h.store_eq hmem hmem' hi hi' hkind
      · apply (h.store_eq hmem' hmem hi' hi hkind).symm
  · intro h userdata hreach r hr
    have hne : r.configs ≠ [] := List.ne_nil_of_length_pos (Fin.pos r.layer)
    have hsame : ∀ configs ∈ servers, configs ≠ [] → SameStores configs r.configs :=
      fun configs hmem hne' => h configs hmem r.configs hr hne' hne
    cases userdata with
    | none =>
        rw [LayerRequest.get_none]
        apply (cached_replicate hr).right hsame
    | some stores => apply (reach_cached hreach stores rfl).right hsame

end Servers

/-- A layer with a store string. -/
def sampleLayer (store : String) : TileConfigRec where
  hostnames := []
  attribution := []
  baseuri := []
  cors := none
  description := []
  fileExtension := []
  mimeType := []
  store := Bytes.ofString store
  xmlname := []
  aspectX := 1
  aspectY := 1
  enableOptions := 0
  maxzoom := 20
  minzoom := 0

/-- A request for the first layer of a server with one layer. -/
def sampleRequest (store : String) : LayerRequest :=
  ⟨[sampleLayer store], ⟨0, Nat.one_pos⟩, ⟨some true, true⟩⟩

/-- A request for the second layer of a server with two layers. -/
def sampleRequestSecond (store : String) : LayerRequest :=
  ⟨[sampleLayer store, sampleLayer store], ⟨1, Nat.one_lt_two⟩, ⟨some true, true⟩⟩

/-- After a request to a server with one layer, a request for the second layer of another
server is outside of the array, and a request for the first layer of a third one gets the
backend of the first. -/
theorem foreign_store :
  ∃ userdata backend stores,
    LayerRequest.step none (sampleRequest "/tiles") = some userdata ∧
      (sampleRequestSecond "/tiles").get userdata = none ∧
      (sampleRequest "rados://hills").get userdata = some (some backend, stores) ∧
      backend.options ≠ (sampleRequest "rados://hills").store
  := by
  refine ⟨some [some ⟨.file, Bytes.ofString "/tiles"⟩], ⟨.file, Bytes.ofString "/tiles"⟩,
    [some ⟨.file, Bytes.ofString "/tiles"⟩], ?_⟩
  decide

end TileModule
