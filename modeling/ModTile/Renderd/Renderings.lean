import ModTile.Renderd.Answers

/-!
# What a request that is done has been rendered as

A response that a request is done is sent after a rendering has been completed that began or
was in progress when the request was received.  The rendering is that of the item that was
fetched, for which the request can be a duplicate.  The queue takes requests for duplicates
that agree in the map and the metatile, whatever their options are; so the rendering is of
the metatile that was asked for only as long as no request joins an item with other options.
-/

open Linked Transition RenderThread

namespace Rendering

/-- What has been rendered is what an item asks for: the same map, metatile and options. -/
structure Matches (g : Rendering) (c : Content) : Prop where
  xmlname : g.xmlname = c.req.xmlnameString
  options : g.options = c.req.optionsString
  mx : g.mx = c.mx
  my : g.my = c.my
  z : g.z = c.req.z

end Rendering

/-- The strings of a request end within their arrays. -/
def Protocol.Fits (req : Protocol) : Prop :=
  req.xmlnameString.length < xmlconfigMax ∧ req.optionsString.length < xmlconfigMax

instance (req : Protocol) : Decidable req.Fits := instDecidableAnd

/-- The coordinates of the metatile are those of the tile that was asked for. -/
def Item.AtOrigin (item : Item) : Prop :=
  item.mx = metatileOrigin item.req.x ∧ item.my = metatileOrigin item.req.y

namespace Job

/-- A slave thread passes requests on whose strings fit. -/
def Fits (req : Protocol) : Job → Prop
  | .render _ => True
  | .slave _ _ => req.Fits

instance (req : Protocol) (job : Job) : Decidable (job.Fits req) := by
  cases job <;> unfold Fits <;> infer_instance

/-- A job renders what its item asks for. -/
theorem rendering_matches {job : Job} {item : Item} {received : ℕ} (hfits : job.Fits item.req)
    (horigin : item.AtOrigin) :
  (job.rendering item received).Matches item.content
  := by
  cases job with
  | render o => constructor <;> rfl
  | slave old rsp =>
      obtain ⟨hxmlname, hoptions⟩ := hfits
      constructor
      case xmlname =>
        apply Bytes.cString_storeString Bytes.zero_notMem_cString
        apply Nat.le_of_lt_succ hxmlname
      case options =>
        have h : Bytes.cString
            ((Bytes.storeString item.req.optionsString old.options).toList ++ []) =
              item.req.optionsString :=
          Bytes.cString_storeString Bytes.zero_notMem_cString (Nat.le_of_lt_succ hoptions)
        rw [List.append_nil] at h
        apply h
      case mx => apply horigin.1.symm
      case my => apply horigin.2.symm
      case z => rfl

end Job

namespace Renderd

/-- An item that would become a duplicate has the options of the item that it joins. -/
def JoinsSame (s : Renderd) (item : Item) : Prop :=
  match s.queue.queue.lookupItemIdx item with
  | none => True
  | some t => (s.heap t).inQueue = .queueDirty ∨ (s.heap t).inQueue = .queueRequestBulk ∨
      (s.heap t).req.optionsString = item.req.optionsString

instance (s : Renderd) (item : Item) : Decidable (s.JoinsSame item) := by
  unfold JoinsSame
  split <;> infer_instance

/-- A request joins an item only if it has the same options, and slave threads pass requests on
only if their strings fit. -/
def OptionsAgree (s : Renderd) : ThreadStep → Prop
  | .rxRequest (some n) =>
      match s.main with
      | .received _ req fd => s.JoinsSame (newItem (s.heap (.item n)) (upgrade req) fd)
      | _ => True
  | .finish worker job =>
      match s.workers worker with
      | .rendering p => job.Fits (s.heap p).req
      | _ => True
  | _ => True

instance (s : Renderd) : (a : ThreadStep) → Decidable (s.OptionsAgree a)
  | .rxRequest (some n) =>
      match hmain : s.main with
      | .received _ req fd =>
          decidable_of_iff (s.JoinsSame (newItem (s.heap (.item n)) (upgrade req) fd)) (by
            rw [OptionsAgree, hmain])
      | .polling | .notDone .. | .closing .. => isTrue (by
          rw [OptionsAgree, hmain]
          trivial)
  | .finish worker job =>
      match hworker : s.workers worker with
      | .rendering p =>
          decidable_of_iff (job.Fits (s.heap p).req) (by
            rw [OptionsAgree, hworker])
      | .idle | .responding .. => isTrue (by
          rw [OptionsAgree, hworker]
          trivial)
  | .rxRequest none | .accept _ | .receive .. | .sendNotDone | .clear _ | .close | .fetch _
  | .respond _ => instDecidableTrue

/-- A rendering has been completed for what is asked for in `c`, and had not been when the request
`r` was received. -/
def RenderedFor (s : Renderd) (r : ℕ) (c : Content) : Prop :=
  ∃ g ∈ s.rendered, g.Matches c ∧ r < g.received

/-- The duplicates of an item have its options, and the items and messages that report a request
as done do so after a rendering for it. -/
structure Faithful (s : Renderd) (v : View) (chains : ℕ → List Ptr) : Prop where
  origin : ∀ {p}, p ∈ s.allocated → (s.heap p).AtOrigin
  options : ∀ {t d}, v.Listed t → d ∈ v.dups t →
    (s.heap d).req.optionsString = (s.heap t).req.optionsString
  done : ∀ {w o p}, s.workers w = .responding .cmdDone o → p ∈ chains w →
    (s.heap p).fd ≠ fdInvalid → s.RenderedFor (s.requestOf p) (s.heap p).content
  sent : ∀ {e}, e ∈ s.sent → e.message.cmd = .cmdDone →
    ∃ rec, s.received[e.request]? = some rec ∧ s.RenderedFor e.request rec.content

variable {maps : List XmlMapConfig} {s s' : Renderd} {v v' : View} {chains chains' : ℕ → List Ptr}
  {p : Ptr} {m : Heap} {a : ThreadStep} {r : ℕ} {c c' : Content} {e : Sent}

theorem faithful_init :
  Faithful (init m) View.empty fun _ => []
  := by
  constructor
  case origin => simp [init]
  case options => simp [View.empty]
  case done => simp
  case sent => simp [init]

/-- The descriptor is not part of what is rendered. -/
theorem RenderedFor.congr (h : s.RenderedFor r c) (hreq : c'.req = c.req) (hmx : c'.mx = c.mx)
    (hmy : c'.my = c.my) :
  s.RenderedFor r c'
  := by
  obtain ⟨g, hg, hmatches, hlt⟩ := h
  refine ⟨g, hg, ?_, hlt⟩
  constructor
  case xmlname => rw [hreq, hmatches.xmlname]
  case options => rw [hreq, hmatches.options]
  case mx => rw [hmx, hmatches.mx]
  case my => rw [hmy, hmatches.my]
  case z => rw [hreq, hmatches.z]

/-- A rendering that has been completed stays so. -/
theorem RenderedFor.mono {l : List Rendering} (h : s.RenderedFor r c)
    (hrendered : s'.rendered = s.rendered ++ l) :
  s'.RenderedFor r c
  := by
  obtain ⟨g, hg, hmatches⟩ := h
  use g
  rw [hrendered]
  exact ⟨List.mem_append_left _ hg, hmatches⟩

/-- The contents of items are the same, except for descriptors that have been cleared. -/
def SameContents (s s' : Renderd) : Prop :=
  ∀ p, (s'.heap p).content = (s.heap p).content ∨
    (s'.heap p).content = { (s.heap p).content with fd := fdInvalid }

namespace SameContents

theorem req (h : SameContents s s') (p : Ptr) :
  (s'.heap p).req = (s.heap p).req
  := by
  rcases h p with h | h
  · apply congrArg Content.req h
  · apply congrArg Content.req h

theorem mx (h : SameContents s s') (p : Ptr) :
  (s'.heap p).mx = (s.heap p).mx
  := by
  rcases h p with h | h
  · apply congrArg Content.mx h
  · apply congrArg Content.mx h

theorem my (h : SameContents s s') (p : Ptr) :
  (s'.heap p).my = (s.heap p).my
  := by
  rcases h p with h | h
  · apply congrArg Content.my h
  · apply congrArg Content.my h

theorem fd_ne (h : SameContents s s') (hfd : (s'.heap p).fd ≠ fdInvalid) :
  (s.heap p).fd ≠ fdInvalid
  := by
  rcases h p with h | h
  · rw [← Item.fd_congr h]
    apply hfd
  · apply absurd (congrArg Content.fd h) hfd

theorem atOrigin (h : SameContents s s') (horigin : (s.heap p).AtOrigin) :
  (s'.heap p).AtOrigin
  := by
  rw [Item.AtOrigin, h.req, h.mx, h.my]
  apply horigin

end SameContents

namespace Faithful

open RequestQueue

/-- Messages keep their renderings when requests are received and renderings are completed. -/
theorem sent_mono {l : List Received} {l' : List Rendering} (ha : Faithful s v chains)
    (hreceived : s'.received = s.received ++ l) (hrendered : s'.rendered = s.rendered ++ l')
    (he : e ∈ s.sent) (hcmd : e.message.cmd = .cmdDone) :
  ∃ rec, s'.received[e.request]? = some rec ∧ s'.RenderedFor e.request rec.content
  := by
  obtain ⟨rec, hrec, hfor⟩ := ha.sent he hcmd
  use rec
  rw [hreceived]
  exact ⟨getElem?_append_of_some hrec, hfor.mono hrendered⟩

/-- A step that concerns neither the queue nor the workers. -/
theorem of_eq {l : List Received} (ha : Faithful s v chains)
    (hallocated : s'.allocated = s.allocated) (hheap : SameContents s s')
    (hrequestOf : s'.requestOf = s.requestOf) (hworkers : s'.workers = s.workers)
    (hrendered : s'.rendered = s.rendered) (hreceived : s'.received = s.received ++ l)
    (hsent : ∀ {e}, e ∈ s'.sent → e.message.cmd = .cmdDone → e ∈ s.sent) :
  Faithful s' v chains
  := by
  have hrendered' : s'.rendered = s.rendered ++ [] := by rw [hrendered, List.append_nil]
  constructor
  case origin =>
    intro p hp
    rw [hallocated] at hp
    apply hheap.atOrigin (ha.origin hp)
  case options =>
    intro t d ht hd
    rw [hheap.req, hheap.req]
    apply ha.options ht hd
  case done =>
    intro w o p hw hp hfd
    rw [hworkers] at hw
    have hfor := (ha.done hw hp (hheap.fd_ne hfd)).mono hrendered'
    rw [hrequestOf]
    apply hfor.congr (hheap.req p) (hheap.mx p) (hheap.my p)
  case sent =>
    intro e he hcmd
    apply ha.sent_mono hreceived hrendered' (hsent he hcmd) hcmd

/-- A request that becomes a duplicate has the options of the item that it joins. -/
theorem options_of_joinsSame {n : ℕ} {item : Item} {t : Ptr} {list : ListHead}
    (hc : Coherent s v chains) (hjoins : s.JoinsSame item) (ht : t ∈ v.lists list)
    (hn : t ≠ .item n) (hkey : item.key = ((s.queue.queue.write n item).heap t).key)
    (htakes : list.takesDuplicates) :
  (s.heap t).req.optionsString = item.req.optionsString
  := by
  rw [heap_write_of_ne hn] at hkey
  have hlookup : s.queue.queue.lookupItemIdx item = some t :=
    (hc.queue.represents.lookup_eq_some_iff item).mpr ⟨⟨list, ht⟩, hkey⟩
  have hqueue : (s.heap t).inQueue = list.inQueue := hc.queue.represents.inQueue ht
  rw [JoinsSame, hlookup] at hjoins
  dsimp only at hjoins
  rw [hqueue] at hjoins
  rcases hjoins with h | h | h
  · cases list <;> simp [ListHead.inQueue, ListHead.takesDuplicates] at h htakes
  · cases list <;> simp [ListHead.inQueue, ListHead.takesDuplicates] at h htakes
  · apply h

/-- The options of the duplicates when an item has been added. -/
theorem options_add {n : ℕ} {item : Item} {res : Added} (ha : Faithful s v chains)
    (hc : Coherent s v chains) (hfree : .item n ∉ s.allocated) (hjoins : s.JoinsSame item)
    (ho : AddOutcome (s.queue.queue.write n item) v n res v') {t d : Ptr} (ht : v'.Listed t)
    (hd : d ∈ v'.dups t) :
  ((s.queue.queue.write n item).heap d).req.optionsString =
    ((s.queue.queue.write n item).heap t).req.optionsString
  := by
  have hheld : ∀ {x}, v.Held x → x ≠ .item n := by
    rintro x hx rfl
    apply hfree (hc.mem_allocated_of_accepted (hc.queue.accepted.mpr hx))
  have hold : v.Listed t → d ∈ v.dups t →
      ((s.queue.queue.write n item).heap d).req.optionsString =
        ((s.queue.queue.write n item).heap t).req.optionsString := by
    intro ht hd
    rw [heap_write_of_ne (hheld (Or.inr ⟨t, ht, hd⟩)), heap_write_of_ne (hheld (Or.inl ht))]
    apply ha.options ht hd
  have henqueue : ∀ {list}, (v.enqueue list (.item n)).Listed t →
      d ∈ (v.enqueue list (.item n)).dups t →
      ((s.queue.queue.write n item).heap d).req.optionsString =
        ((s.queue.queue.write n item).heap t).req.optionsString := by
    intro list ht hd
    rcases View.listed_enqueue.mp ht with ht | rfl
    · rw [View.dups_enqueue_of_ne (hheld (Or.inl ht))] at hd
      apply hold ht hd
    · rw [View.dups_enqueue_self] at hd
      simp at hd
  cases ho with
  | duplicate t' list ht' hkey htakes =>
      by_cases htt : t = t'
      · subst htt
        rw [View.dups_attach_self] at hd
        rcases List.mem_cons.mp hd with rfl | hd
        · have hne := hheld (Or.inl ⟨list, ht'⟩)
          rw [heap_write_self] at hkey ⊢
          rw [heap_write_of_ne hne]
          apply (options_of_joinsSame hc hjoins ht' hne hkey htakes).symm
        · apply hold ⟨list, ht'⟩ hd
      · rw [View.dups_attach_of_ne htt] at hd
        apply hold ht hd
  | refused t' list ht' hkey htakes => apply hold ht hd
  | queued list hlist hdirty hroom => apply henqueue ht hd
  | dirty hfull hroom => apply henqueue ht hd
  | dropped hfull hdirty => apply hold ht hd

/-- The main thread passes a request to the queue. -/
theorem add {request : ℕ} {req : Protocol} {fd : ℤ} {n : ℕ} {item : Item} {res : Added}
    (ha : Faithful s v chains) (hc : Coherent s v chains) (hfree : .item n ∉ s.allocated)
    (hitem : item = newItem (s.heap (.item n)) (upgrade req) fd) (hjoins : s.JoinsSame item)
    (ho : AddOutcome (s.queue.queue.write n item) v n res v') :
  Faithful (s.afterAdd request (upgrade req) fd n res) v' chains
  := by
  have hsame : SameContents
      { s with queue := { s.queue with queue := s.queue.queue.write n item } }
      (s.afterAdd request (upgrade req) fd n res) := by
    intro x
    by_cases hx : x = .item n
    · subst hx
      apply ho.content_self
    · exact Or.inl (ho.content_of_ne hx)
  constructor
  case origin =>
    intro p hp
    apply hsame.atOrigin
    dsimp only [heap]
    by_cases hpn : p = .item n
    · subst hpn
      rw [heap_write_self, hitem]
      exact ⟨rfl, rfl⟩
    · rw [heap_write_of_ne hpn]
      apply ha.origin
      dsimp only [afterAdd] at hp
      split at hp
      · apply hp
      · apply (List.mem_cons.mp hp).resolve_left hpn
  case options =>
    intro t d ht hd
    rw [hsame.req, hsame.req]
    apply ha.options_add hc hfree hjoins ho ht hd
  case done =>
    intro w o p hw hp hfd
    have hpn : p ≠ .item n := by
      rintro rfl
      apply hfree (hc.mem_allocated_of_chain hp)
    have hcontent : ((s.afterAdd request (upgrade req) fd n res).heap p).content =
        (s.heap p).content := by
      dsimp only [afterAdd, heap]
      rw [ho.content_of_ne hpn, heap_write_of_ne hpn]
    rw [Item.fd_congr hcontent] at hfd
    rw [hcontent]
    dsimp only [afterAdd]
    rw [Function.update_of_ne hpn]
    apply ha.done hw hp hfd
  case sent => exact ha.sent

/-- A worker fetches an item. -/
theorem fetch {worker : ℕ} {list : ListHead} (ha : Faithful s v chains) (hc : Coherent s v chains)
    (hp : p ∈ v.lists list) :
  Faithful { s with
    queue := { s.queue with
      queue := (s.queue.queue.fetchFrom list).2, fetched := p :: s.queue.fetched }
    workers := Function.update s.workers worker (.rendering p) }
    ((v.erase list p).render p) chains
  := by
  have hsame : SameContents s { s with
      queue := { s.queue with
        queue := (s.queue.queue.fetchFrom list).2, fetched := p :: s.queue.fetched }
      workers := Function.update s.workers worker (.rendering p) } :=
    fun x => Or.inl content_fetchFrom
  constructor
  case origin =>
    intro x hx
    apply hsame.atOrigin (ha.origin hx)
  case options =>
    intro t d ht hd
    rw [hsame.req, hsame.req]
    apply ha.options ((hc.queue.represents.listed_fetch hp).mp ht) hd
  case done =>
    intro w o x hw hx hfd
    dsimp only at hw
    by_cases hww : w = worker
    · subst hww
      simp at hw
    · rw [Function.update_of_ne hww] at hw
      have hfor := ha.done hw hx (hsame.fd_ne hfd)
      apply hfor.congr (hsame.req x) (hsame.mx x) (hsame.my x)
  case sent => exact ha.sent

/-- What has been rendered for an item has been rendered for its duplicates. -/
theorem matches_of_mem {g : Rendering} {x : Ptr} (ha : Faithful s v chains)
    (hc : Coherent s v chains) (hp : v.Listed p) (hx : x ∈ p :: v.dups p)
    (hg : g.Matches (s.heap p).content) :
  g.Matches (s.heap x).content
  := by
  rcases List.mem_cons.mp hx with rfl | hd
  · apply hg
  · have hkey : (s.heap x).key = (s.heap p).key := hc.queue.represents.dupKey hp hd
    constructor
    case xmlname =>
      rw [hg.xmlname]
      apply congrArg Key.xmlname hkey.symm
    case options =>
      rw [hg.options]
      apply (ha.options hp hd).symm
    case mx =>
      rw [hg.mx]
      apply congrArg Key.mx hkey.symm
    case my =>
      rw [hg.my]
      apply congrArg Key.my hkey.symm
    case z =>
      rw [hg.z]
      apply congrArg Key.z hkey.symm

/-- A worker has dealt with an item. -/
theorem finish {worker : ℕ} {job : Job} {res : Response} {q' : RequestQueue}
    (ha : Faithful s v chains) (hr : Recorded s) (hc : Coherent s v chains)
    (hp : p ∈ v.lists .renderHead)
    (hq : s.queue.queue.requestQueueRemoveRequest p res.renderTime = some q')
    (hfits : job.Fits (s.heap p).req) :
  Faithful { s with
    queue := {
      queue := q'
      accepted := s.queue.accepted.filter (· ∉ s.queue.handedBack p)
      fetched := s.queue.fetched.erase p }
    workers := Function.update s.workers worker (.responding res.cmd (some p))
    rendered :=
      if res.cmd = .cmdDone then s.rendered ++ [job.rendering (s.heap p) s.received.length]
      else s.rendered }
    (v.erase .renderHead p) (Function.update chains worker (p :: v.dups p))
  := by
  have hl : v.Listed p := ⟨_, hp⟩
  have hcontent : ∀ x, (q'.heap x).content = (s.heap x).content := fun x =>
    content_removeRequest hq
  have hallocated : ∀ {x}, x ∈ p :: v.dups p → x ∈ s.allocated := by
    intro x hx
    apply hc.mem_allocated_of_accepted
    apply hc.queue.accepted.mpr
    rcases List.mem_cons.mp hx with rfl | hd
    · exact Or.inl hl
    · exact Or.inr ⟨p, hl, hd⟩
  have hmatches : (job.rendering (s.heap p) s.received.length).Matches (s.heap p).content :=
    Job.rendering_matches hfits (ha.origin (hallocated List.mem_cons_self))
  obtain ⟨l, hrendered⟩ : ∃ l, (if res.cmd = .cmdDone then
      s.rendered ++ [job.rendering (s.heap p) s.received.length] else s.rendered) =
      s.rendered ++ l := by
    split
    · exact ⟨_, rfl⟩
    · exact ⟨[], (List.append_nil _).symm⟩
  constructor
  case origin =>
    intro x hx
    dsimp only [heap]
    rw [Item.AtOrigin, Item.req_congr (hcontent x), show (q'.heap x).mx = (s.heap x).mx from
      congrArg Content.mx (hcontent x), show (q'.heap x).my = (s.heap x).my from
      congrArg Content.my (hcontent x)]
    apply ha.origin hx
  case options =>
    intro t d ht hd
    dsimp only [heap]
    rw [Item.req_congr (hcontent t), Item.req_congr (hcontent d)]
    apply ha.options ((hc.queue.represents.listed_erase hp).mp ht).1 hd
  case done =>
    intro w o x hw hx hfd
    dsimp only [heap] at hw hx hfd ⊢
    rw [hcontent]
    rw [Item.fd_congr (hcontent x)] at hfd
    by_cases hww : w = worker
    · subst hww
      rw [Function.update_self] at hw hx
      obtain ⟨hcmd, -⟩ := Worker.responding.inj hw
      obtain ⟨rec, hrec, -⟩ := hr.item (hallocated hx) hfd
      refine ⟨job.rendering (s.heap p) s.received.length, ?_, ?_, ?_⟩
      · simp [hcmd, heap]
      · apply ha.matches_of_mem hc hl hx hmatches
      · have hlt := (List.getElem?_eq_some_iff.mp hrec).1
        cases job <;> apply hlt
    · rw [Function.update_of_ne hww] at hw hx
      apply (ha.done hw hx hfd).mono hrendered
  case sent =>
    intro e he hcmd
    exact ha.sent_mono (List.append_nil _).symm hrendered he hcmd

/-- A worker responds to an item. -/
theorem respond {worker : ℕ} {rsp : ProtoCmd} {l : List Ptr} (ha : Faithful s v chains)
    (hr : Recorded s) (hc : Coherent s v chains)
    (hworker : s.workers worker = .responding rsp (some p)) (hchain : chains worker = p :: l) :
  Faithful (s.sendItem worker rsp p) v (Function.update chains worker l)
  := by
  have hp : p ∈ chains worker := by
    rw [hchain]
    apply List.mem_cons_self
  have hsent := sent_sendItem s worker rsp p
  rw [sendItem_eq]
  constructor
  case origin =>
    intro x hx
    apply ha.origin (List.mem_of_mem_erase hx)
  case options => exact ha.options
  case done =>
    intro w o x hw hx hfd
    dsimp only at hw hx
    by_cases hww : w = worker
    · subst hww
      rw [Function.update_self] at hw hx
      obtain ⟨rfl, -⟩ := Worker.responding.inj hw
      apply ha.done hworker _ hfd
      rw [hchain]
      apply List.mem_cons_of_mem _ hx
    · rw [Function.update_of_ne hww] at hw hx
      apply ha.done hw hx hfd
  case sent =>
    intro e he hcmd
    dsimp only at he
    rw [hsent] at he
    split at he
    · rename_i hsend
      rcases List.mem_append.mp he with he | he
      · apply ha.sent he hcmd
      · obtain rfl := List.mem_singleton.mp he
        obtain rfl : rsp = .cmdDone := hcmd
        obtain ⟨rec, hrec, hcontent, -⟩ := hr.item (hc.mem_allocated_of_chain hp) hsend.1
        refine ⟨rec, hrec, ?_⟩
        rw [← hcontent]
        apply ha.done hworker hp hsend.1
    · apply ha.sent he hcmd

/-- Every step keeps what is known about renderings, if the options agree. -/
theorem effect (ha : Faithful s v chains) (hr : Recorded s) (hc : Coherent s v chains)
    (he : Effect maps s v chains a s' v' chains') (hok : s.OptionsAgree a) :
  Faithful s' v' chains'
  := by
  have hself : ∀ p, (s.heap p).content = (s.heap p).content ∨
      (s.heap p).content = { (s.heap p).content with fd := fdInvalid } := fun p => Or.inl rfl
  have hnil : s.received = s.received ++ [] := (List.append_nil _).symm
  cases he with
  | accept hmain hfd hclosed => exact ha.of_eq rfl hself rfl rfl rfl hnil fun he _ => he
  | receive hmain hopen => exact ha.of_eq rfl hself rfl rfl rfl rfl fun he _ => he
  | refuse hmain => exact ha.of_eq rfl hself rfl rfl rfl hnil fun he _ => he
  | add hmain hcmd hfree hitem hadded ho =>
      simp only [OptionsAgree, hmain] at hok
      rw [← hitem] at hok
      apply ha.add hc hfree hitem hok ho
  | sendNotDone hmain =>
      refine ha.of_eq rfl hself rfl rfl rfl hnil ?_
      intro e he hcmd
      rcases List.mem_append.mp he with he | he
      · apply he
      · obtain rfl := List.mem_singleton.mp he
        simp at hcmd
  | @clear fd conn q' hmain hopen hheap =>
      refine ha.of_eq rfl ?_ rfl rfl rfl hnil fun he _ => he
      intro x
      dsimp only [heap]
      rw [hheap]
      split
      · exact Or.inr rfl
      · exact Or.inl rfl
  | close hmain => exact ha.of_eq rfl hself rfl rfl rfl hnil fun he _ => he
  | fetch hworker hlist hp => apply ha.fetch hc hp
  | finish hworker hp hresponses hq =>
      simp only [OptionsAgree, hworker] at hok
      apply ha.finish hr hc hp hq hok
  | @respondEnd worker rsp hworker =>
      constructor
      case origin => exact ha.origin
      case options => exact ha.options
      case done =>
        intro w o x hw hx hfd
        dsimp only at hw
        by_cases hww : w = worker
        · subst hww
          simp at hw
        · rw [Function.update_of_ne hww] at hw
          apply ha.done hw hx hfd
      case sent => exact ha.sent
  | respond hworker hchain => apply ha.respond hr hc hworker hchain

end Faithful

/-- The options of the second client in a run in which the two clients ask for different ones. -/
def sampleOptions : XmlconfigArray :=
  Bytes.storeString (Bytes.ofString "de") (.replicate _ 0)

end Renderd
