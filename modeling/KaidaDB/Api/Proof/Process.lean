import KaidaDB.Api.Proof.Answers
import KaidaDB.Api.Proof.Genuine
import KaidaDB.Api.Proof.GetMedia
import KaidaDB.Api.Proof.Serving

/-!
# A server answers as a map of objects would

A process that is `Serving` does what handlers are made of as it is done on objects
(`Serving.handlerRules`); so every request is answered as on objects, and a whole run is, from an empty
directory on (`requests_served_from_objects`).
-/

namespace KaidaDB

open Std Effects

variable {X : Crates} {D : Set Bytes} {p : Process} {s : Service}

/-! ## Bodies -/

theorem StoredObject.part_eq (o : StoredObject) (offset length : Nat) :
    range o.data offset length = o.part offset length := by
  unfold range StoredObject.part
  split_ifs
  · rw [List.take_length]
  · rw [List.drop_take, Nat.add_sub_cancel_left]

/-- The pieces of a range are those that the chunks have of it. -/
theorem StoredObject.Known.sentParts {o : StoredObject} (h : o.Known D) (key : String) {offset length : Nat}
    (hoffset : offset < 2 ^ 64) (hlength : length < 2 ^ 64) :
    SentParts (o.manifest X key) o.data offset length (o.pieces offset length) := by
  rw [StoredObject.pieces, ← o.part_eq]
  exact (h.describes (X := X) key).sentParts h.length h.fits hoffset hlength

theorem WholeBody.parts {ε : Type} (parts : List Bytes) :
    WholeBody (parts.map (.ok : Bytes → Except ε Bytes)) parts.flatten := ⟨parts, rfl, rfl⟩

theorem WholeBody.one {ε : Type} (d : Bytes) : WholeBody [(.ok d : Except ε Bytes)] d :=
  ⟨[d], rfl, List.flatten_singleton⟩

/-- The response to a download. -/
theorem expectedResponse_same (o : StoredObject) (key : String) (rangeHeader : Option Bytes)
    {offset length : Nat} {isRange : Bool}
    (hparse : parseRangeHeader rangeHeader o.data.length = (offset, length, isRange)) {parts : List Bytes}
    (hparts : parts.flatten = range o.data offset length) :
    (expectedResponse (o.manifest X key) offset length isRange parts).Same (o.download rangeHeader) := by
  unfold expectedResponse StoredObject.download
  by_cases htype : isHeaderValue o.contentType = true
  · rw [if_pos htype, if_pos (show isHeaderValue (o.manifest X key).contentType = true from htype), hparse]
    cases isRange with
    | true =>
      refine ⟨rfl, rfl, _, WholeBody.parts parts, ?_⟩
      rw [hparts, o.part_eq]
      exact WholeBody.one _
    | false =>
      obtain ⟨rfl, rfl⟩ := parseRangeHeader_whole hparse
      refine ⟨rfl, rfl, _, WholeBody.parts parts, ?_⟩
      rw [hparts, o.part_eq]
      exact WholeBody.one _
  · rw [if_neg htype, if_neg (show ¬ isHeaderValue (o.manifest X key).contentType = true from htype)]
    rfl

/-! ## Reads -/

/-- **A download** of an object that can be read. -/
theorem StoredObject.Known.download {o : StoredObject} (hknown : o.Known D) (hinj : Set.InjOn X.sha256 D)
    {c : View} {request : GetMedia} {cache : ChunkCache}
    (hm : c.index.manifests[normalizeKey request.rawKey]?
      = some (o.manifest X (normalizeKey request.rawKey)))
    (hread : Readable X true c (Slices.slices o.chunkSize o.data)) (hcached : Cached X D cache)
    (checks : Bool) :
    ∃ download, Does (lens X true) (KaidaDB.getMedia X checks request cache) c (.ok download) c ∧
      download.response.Same (o.download request.range) := by
  obtain hzero | hpos := Nat.eq_zero_or_pos o.data.length
  · have hempty : o.data = [] := List.eq_nil_of_length_eq_zero hzero
    have hparse : parseRangeHeader request.range o.data.length = (0, 0, false) := by
      rw [parseRangeHeader, if_pos hzero]
    exact ⟨_, does_getMedia_empty hm hknown.size hzero (by simp [StoredObject.manifest, hempty]) checks cache,
      expectedResponse_same o _ _ hparse (by rw [hempty]; rfl)⟩
  · obtain ⟨⟨offset, length, isRange⟩, hparse⟩ :
        ∃ r, parseRangeHeader request.range o.data.length = r := ⟨_, rfl⟩
    obtain ⟨parts, cache', hx, hparts⟩ := does_getMedia hm hinj (hknown.describes _) hread hpos hknown.length
      checks hcached hparse
    exact ⟨_, hx, expectedResponse_same o _ _ hparse hparts⟩

namespace Serving

variable (h : Serving X D p s) (hinj : Set.InjOn X.sha256 D)
include h

include hinj

theorem readable {key : String} {o : StoredObject} (ho : s.objects[key]? = some o) :
    Readable X true p.store.view (Slices.slices o.chunkSize o.data) := by
  have hm := h.manifests key
  rw [ho] at hm
  exact ((h.known key o ho).describes key).readable h.sound (fun _ => le_rfl) hinj hm

theorem download (checks : Bool) (request : GetMedia) :
    ∃ download st, KaidaDB.getMedia X checks request p.cache p.store = .ok download st ∧
      Serving X D { p with cache := download.cache, store := st } s ∧
      download.response.Same (match s.objects[normalizeKey request.rawKey]? with
        | some o => o.download request.range
        | none => .text 404 "not found") := by
  have hread := reads_getMedia h.sound.reads h.cached checks request
  have hm := h.manifests (normalizeKey request.rawKey)
  cases ho : s.objects[normalizeKey request.rawKey]? with
  | none =>
    rw [ho] at hm
    have hx : Does (lens X true) (KaidaDB.getMedia X checks request p.cache) p.store.view
        (.ok ⟨.text 404 "not found", none, p.cache⟩) p.store.view := by
      refine Does.bind does_getManifest ?_
      rw [hm]
      exact Does.pure _
    obtain ⟨st, hrun, -, hst⟩ := h.same hx
    exact ⟨_, st, hrun, hst, rfl⟩
  | some o =>
    rw [ho] at hm
    obtain ⟨download, hx, hsame⟩ :=
      (h.known _ o ho).download hinj hm (h.readable hinj ho) h.cached checks
    obtain ⟨st, hrun, -, hst⟩ := h.same hx
    obtain ⟨-, hcache⟩ := hread.of_ok hrun
    exact ⟨_, st, hrun, hst.setCache hcache, hsame⟩

/-- **A range over gRPC.** -/
theorem streamMedia (key : String) {offset length : Nat} (hoffset : offset < 2 ^ 64)
    (hlength : length < 2 ^ 64) :
    ∃ r cache st, KaidaDB.streamMedia X ⟨.ok (), key, offset, length⟩ p.cache p.store
        = .ok (r, cache) st ∧
      Serving X D { p with cache, store := st } s ∧
      r = match s.objects[key]? with
        | some o => .ok ((o.messages offset length).map .ok)
        | none => .error (.mk .notFound s!"key not found: {key}") := by
  have hread := reads_streamMedia h.sound.reads h.cached ⟨.ok (), key, offset, length⟩
  have hm := h.manifests key
  cases ho : s.objects[key]? with
  | none =>
    rw [ho] at hm
    have hx : Does (lens X true) (KaidaDB.streamMedia X ⟨.ok (), key, offset, length⟩ p.cache)
        p.store.view (.ok (.error (.mk .notFound s!"key not found: {key}"), p.cache)) p.store.view := by
      refine Does.bind does_getManifest ?_
      rw [hm]
      exact Does.pure _
    obtain ⟨st, hrun, -, hst⟩ := h.same hx
    exact ⟨_, _, st, hrun, hst, rfl⟩
  | some o =>
    rw [ho] at hm
    have hknown := h.known _ o ho
    obtain ⟨cache, hx⟩ := does_streamMedia hinj hm (hknown.describes key) (h.readable hinj ho)
      (hknown.sentParts key hoffset hlength) h.cached
    obtain ⟨st, hrun, -, hst⟩ := h.same hx
    obtain ⟨-, hcache⟩ := hread.of_ok hrun
    exact ⟨_, _, st, hrun, hst.setCache hcache, rfl⟩

end Serving

/-! ## Requests -/

/-- **What handlers are made of** does on a process what is done on objects. -/
theorem Serving.handlerRules (hinj : Set.InjOn X.sha256 D) : HandlerRules X D (Serving X D) ApiReply.Same where
  plain := ApiReply.Plain.same
  state h := h.state
  manifests h := h.index_manifests
  invalidateAll h ids := by
    obtain ⟨cache, hcache, hrun⟩ := invalidateAll_run h.cached ids
    exact ⟨cache, hrun _, h.setCache hcache⟩
  put h := h.put
  delete h := h.delete
  rename h := h.rename
  deleteStream h := h.deleteStream
  getMedia h checks request := by
    obtain ⟨download, st, hrun, hst, hsame⟩ := h.download hinj checks request
    rw [Replied]
    dsimp only
    rw [run_bind, hrun]
    exact ⟨hsame, hst⟩
  streamMedia {p s} h key offset length hoffset hlength := by
    obtain ⟨r, cache, st, hrun, hst, hr⟩ := h.streamMedia hinj key hoffset hlength
    have hreply := run_map_handler
      (x := ExceptT.mk (KaidaDB.streamMedia X ⟨.ok (), key, offset, length⟩)) hrun GrpcReply.chunks
    rw [Replied, hreply, hr]
    refine ⟨?_, hst⟩
    cases s.objects[key]? with
    | none => rfl
    | some o => rfl

/-- **A request**, over either API. -/
theorem Serving.serve (h : Serving X D p s) (hinj : Set.InjOn X.sha256 D) (ops : DashOps) (checks : Bool)
    (request : ApiRequest) (hsized : request.Sized) (hD : ∀ q, q <:+: request.body → q ∈ D) :
    Serving X D (p.serve X ops checks request).1 (s.serve X ops request).1 ∧
      ApiReply.Same (p.serve X ops checks request).2 (s.serve X ops request).2 :=
  (Serving.handlerRules hinj).serve h ops checks request hsized hD

/-! ## Runs -/

theorem Serving.tick (h : Serving X D p s) (now : Int) :
    Serving X D { p with store := { p.store with clock := now } } { s with clock := now } :=
  { h with clock := rfl, sound := h.sound.frame rfl rfl, calm := h.calm }

theorem Serving.step (hX : X.Lawful) (h : Serving X D p s) (hinj : Set.InjOn X.sha256 D) (ops : DashOps)
    (checks : Bool) (event : ProcessEvent) (hsized : event.Sized) (hD : ∀ q, q <:+: event.body → q ∈ D) :
    Serving X D (p.step X ops checks event).1 (s.step X ops event).1 ∧
      List.Forall₂ ApiReply.Same (p.step X ops checks event).2 (s.step X ops event).2 := by
  cases event with
  | request request =>
    obtain ⟨hserving, hsame⟩ := h.serve hinj ops checks request hsized hD
    exact ⟨hserving, .cons hsame .nil⟩
  | gc grace =>
    obtain ⟨report, st, hrun, hst⟩ := h.gc grace
    rw [Process.step, hrun]
    exact ⟨hst, .nil⟩
  | tick now => exact ⟨h.tick now, .nil⟩
  | restart state durability maxCache =>
    obtain ⟨st, hopen, hst⟩ := h.restart hX state durability maxCache hsized
    rw [Process.step, hopen]
    exact ⟨hst, .nil⟩

theorem Serving.run (hX : X.Lawful) (hinj : Set.InjOn X.sha256 D) (ops : DashOps) (checks : Bool) :
    ∀ (events : List ProcessEvent) {p : Process} {s : Service}, Serving X D p s →
      (∀ event ∈ events, event.Sized) → (∀ event ∈ events, ∀ q, q <:+: event.body → q ∈ D) →
      Serving X D (p.run X ops checks events).1 (s.run X ops events).1 ∧
        List.Forall₂ ApiReply.Same (p.run X ops checks events).2 (s.run X ops events).2
  | [], _, _, h, _, _ => ⟨h, .nil⟩
  | event :: events, p, s, h, hsized, hD => by
    obtain ⟨hstep, hreplies⟩ := h.step hX hinj ops checks event (hsized event List.mem_cons_self)
      (hD event List.mem_cons_self)
    obtain ⟨hrun, hlater⟩ := Serving.run hX hinj ops checks events hstep
      (fun e he => hsized e (List.mem_cons_of_mem _ he)) fun e he => hD e (List.mem_cons_of_mem _ he)
    exact ⟨hrun, List.rel_append hreplies hlater⟩

theorem Serving.start (state : AppState) (hsize : state.engine.Sized) (dataDir : String)
    (maxCache : Nat) : Serving X D (Process.start state dataDir maxCache) (.empty state) where
  state := rfl
  sized := hsize
  healthy := (Sim.fresh (X := X) (D := D) hsize.1 dataDir).healthy
  calm := rfl
  sound := (Sim.fresh hsize.1 dataDir).sound.weaken fun id => needOf_nonneg _ id
  manifests key := by simp [Process.start, Service.empty, Store.emptyDir, Store.view, IndexState.empty]
  known key o ho := by simp [Service.empty] at ho
  clock := rfl
  cached := .new maxCache

end KaidaDB
