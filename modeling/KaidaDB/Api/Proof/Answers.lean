import KaidaDB.Api.Process
import KaidaDB.Api.Proof.Auth
import KaidaDB.Api.Proof.Handlers
import KaidaDB.Api.Proof.StoredObjects
import KaidaDB.Api.Proof.Upload
import KaidaDB.Lib.Reads

/-!
# What handlers answer

Every handler of the two APIs is made of a few operations: those that change objects, a look at the
manifests, removals from the cache and the two downloads. `HandlerRules X D P R` says that, where `P p s`,
these do to the process `p` what is done to the objects of `s`, and that downloads are answered up to `R`.
Then every request is answered as on objects, up to `R` (`HandlerRules.serve`).
-/

namespace KaidaDB

open Std Effects

variable {X : Crates} {D : Set Bytes} {P : Process → Service → Prop} {R : ApiReply → ApiReply → Prop}
  {p : Process} {s : Service}

/-! ## Answers -/

/-- The handler answers as is done on objects, and the process shows the objects that are left. -/
def Answered {α : Type} (P : Process → Service → Prop) (R : ApiReply → ApiReply → Prop) (reply : α → ApiReply)
    (p : Process) (x : ServerM α) (outcome : Service × α) : Prop :=
  ∃ a cache st, x p.cache p.store = .ok (a, cache) st ∧ R (reply a) (reply outcome.2) ∧
    P { p with cache, store := st } outcome.1

/-- A reply that is not sent in pieces. -/
def ApiReply.Plain : ApiReply → Prop
  | .rest (.media _) | .grpc (.ok (.chunks _)) => False
  | _ => True

theorem ApiReply.Plain.same {reply : ApiReply} (h : reply.Plain) : reply.Same reply := by
  cases reply with
  | rest reply => cases reply <;> first | exact h.elim | rfl
  | grpc reply =>
    cases reply with
    | error status => rfl
    | ok reply => cases reply <;> first | exact h.elim | rfl
  | panicked e => rfl

/-- The handler ends as is done on objects, or fails in a way that `R` lets pass. -/
def Replied {α : Type} (P : Process → Service → Prop) (R : ApiReply → ApiReply → Prop) (reply : α → ApiReply)
    (p : Process) (x : ServerM α) (outcome : Service × α) : Prop :=
  R (p.ended reply (x p.cache p.store)).2 (reply outcome.2) ∧
    P (p.ended reply (x p.cache p.store)).1 outcome.1

theorem Answered.replied {α : Type} {reply : α → ApiReply} {x : ServerM α} {outcome : Service × α}
    (h : Answered P R reply p x outcome) : Replied P R reply p x outcome := by
  obtain ⟨a, cache, st, hrun, hR, hP⟩ := h
  rw [Replied, hrun]
  exact ⟨hR, hP⟩

/-- The operations that handlers are made of (module doc). `D` has the pieces of what is uploaded. -/
structure HandlerRules (X : Crates) (D : Set Bytes) (P : Process → Service → Prop)
    (R : ApiReply → ApiReply → Prop) : Prop where
  plain : ∀ {reply : ApiReply}, reply.Plain → R reply reply
  state : ∀ {p s}, P p s → s.state = p.state
  manifests : ∀ {p s}, P p s → p.store.index.manifests = (s.index X).manifests
  invalidateAll : ∀ {p s}, P p s → ∀ ids, ∃ cache,
    KaidaDB.invalidateAll ids p.cache p.store = .ok ((), cache) p.store ∧ P { p with cache } s
  put : ∀ {p s}, P p s → ∀ (job : Upload.Job) (ending : Ending),
    (∀ q, q <:+: job.frames.flatten → q ∈ D) → job.frames.flatten.length < 2 ^ 64 → ∃ st,
      uploadWorker X p.state.engine job ending p.store
        = result ((s.put job).2.map fun o => o.manifest X job.key) st ∧
      P { p with store := st } (s.put job).1
  delete : ∀ {p s}, P p s → ∀ key, ∃ st, StorageEngine.delete X key p.store = .ok (s.delete key).2 st ∧
    P { p with store := st } (s.delete key).1
  rename : ∀ {p s}, P p s → ∀ fromKey toKey, ∃ st, StorageEngine.rename X fromKey toKey p.store
      = result (((s.rename fromKey toKey).2.map fun o => o.manifest X toKey).mapError .error) st ∧
    P { p with store := st } (s.rename fromKey toKey).1
  deleteStream : ∀ {p s}, P p s → ∀ streamId, ∃ st,
    KaidaDB.deleteStream X p.state.streaming.toStreamingConfig streamId
      (p.store.index.manifests.size + 1) p.store = .ok (s.deleteStream streamId).2 st ∧
    P { p with store := st } (s.deleteStream streamId).1
  getMedia : ∀ {p s}, P p s → ∀ (checks : Bool) (request : GetMedia),
    Replied P R .rest p (fun cache => do
        let download ← KaidaDB.getMedia X checks request cache
        return (.media download, download.cache))
      (s, .media ⟨match s.objects[normalizeKey request.rawKey]? with
        | some o => o.download request.range
        | none => .text 404 "not found", none, .new 0⟩)
  streamMedia : ∀ {p s}, P p s → ∀ (key : String) (offset length : Nat), offset < 2 ^ 64 →
    length < 2 ^ 64 → Replied P R .grpc p
      (GrpcReply.chunks <$> ExceptT.mk (KaidaDB.streamMedia X ⟨.ok (), key, offset, length⟩) :
        Handler GrpcReply)
      (s, match s.objects[key]? with
        | some o => .ok (.chunks ((o.messages offset length).map .ok))
        | none => .error (.mk .notFound s!"key not found: {key}"))

namespace HandlerRules

variable (H : HandlerRules X D P R) (h : P p s)
include H h

/-- What only asks for manifests is answered from the objects. -/
theorem reads_index {β : Type} (f : IndexState → β) (hf : ∀ i : IndexState, f i = f ⟨i.manifests, ∅⟩) :
    f p.store.index = f (s.index X) := by
  rw [hf, H.manifests h]
  rfl

theorem getManifest (key : String) : Index.getManifest key p.store
    = .ok (s.objects[key]?.map fun o => o.manifest X key) p.store := by
  refine congrArg (EStateM.Result.ok · p.store) ?_
  rw [H.manifests h, Service.index, ExtTreeMap.getElem?_map]

end HandlerRules

section
variable {α : Type} {reply : α → ApiReply}

theorem Answered.intro (H : HandlerRules X D P R) {x : ServerM α} {a : α} {cache : ChunkCache} {st : Store}
    {s' : Service} (hrun : x p.cache p.store = .ok (a, cache) st) (hplain : (reply a).Plain)
    (h : P { p with cache, store := st } s') : Answered P R reply p x (s', a) :=
  ⟨a, cache, st, hrun, H.plain hplain, h⟩

/-- An answer from the index, which leaves everything as it is. -/
theorem HandlerRules.reading (H : HandlerRules X D P R) (h : P p s) {x : ServerM α} (f : IndexState → α)
    (hrun : x p.cache p.store = .ok (f p.store.index, p.cache) p.store)
    (hf : ∀ i : IndexState, f i = f ⟨i.manifests, ∅⟩) (hplain : (reply (f (s.index X))).Plain) :
    Answered P R reply p x (s, f (s.index X)) := by
  rw [H.reads_index h f hf] at hrun
  exact .intro H hrun hplain h

/-- The process goes on from a changed cache. -/
theorem Answered.of_run {x y : ServerM α} {cache : ChunkCache} {outcome : Service × α}
    (hrun : x p.cache p.store = y cache p.store)
    (h : Answered P R reply { p with cache } y outcome) : Answered P R reply p x outcome := by
  obtain ⟨a, cache', st, hy, hsame, hserving⟩ := h
  exact ⟨a, cache', st, hrun.trans hy, hsame, hserving⟩

end

/-! ## Uploads -/

section
variable {engine : StorageEngine} {st st' : Store} {r : Except Fail MediaManifest}

theorem join_run {α : Type} {x : M α} {r : Except Fail α} (h : x st = result r st') :
    join x st = .ok r st' := by
  cases r with
  | ok a => exact attempt_ok h
  | error e => exact attempt_error h

/-- What `put_media` answers. -/
theorem putMedia_run {request : PutMedia}
    (h : uploadWorker X engine request.job request.ending st = result r st') :
    putMedia X engine request st = .ok (Service.putResponse request.ending r) st' := by
  rw [putMedia, run_bind, join_run h]
  dsimp only
  cases request.ending with
  | dropped => rfl
  | readError text refused =>
    dsimp only [Service.putResponse]
    split_ifs <;> rfl
  | clean => rfl

/-- What `store_media` answers once its worker is started. -/
theorem storeMedia_run (request : StoreMedia) {job : Upload.Job} (hjob : request.job = .ok job)
    (h : uploadWorker X engine job request.ending st = result r st') :
    ∃ answer, storeMedia X engine request st = .ok answer st' ∧
      (match answer with
        | none => .ok .nothing
        | some (.ok response) => .ok (.stored response)
        | some (.error status) => .error status : Except Status GrpcReply)
      = Service.storeReply request.ending r := by
  rw [storeMedia, hjob]
  dsimp only
  rw [run_bind, join_run h]
  dsimp only
  have hresponse : ∀ x : Except Status StoreMediaResponse,
      (match some x with
        | none => .ok .nothing
        | some (.ok response) => .ok (.stored response)
        | some (.error status) => .error status : Except Status GrpcReply) = x.map .stored := fun x => by
    cases x <;> rfl
  cases request.ending with
  | dropped => exact ⟨_, rfl, rfl⟩
  | readError text refused =>
    dsimp only [Service.storeReply]
    split_ifs
    · exact ⟨_, rfl, hresponse _⟩
    · exact ⟨_, rfl, rfl⟩
  | clean => exact ⟨_, rfl, hresponse _⟩

end

/-! ## REST -/

theorem run_currentIndex (cache : ChunkCache) (st : Store) :
    currentIndex cache st = .ok (st.index, cache) st := rfl

theorem answering_error {α : Type} {x : M α} {e : KaidaDbError} {st st' : Store}
    (onError : KaidaDbError → RestReply) (f : α → RestReply) (h : x st = .error (.error e) st')
    (cache : ChunkCache) : Rest.answering x onError f cache st = .ok (onError e, cache) st' := by
  rw [Rest.answering, run_lift (attempt_error h)]
  rfl

theorem buildHead_plain (headers : List (String × String)) :
    (ApiReply.rest (Rest.buildHead headers)).Plain := by
  unfold Rest.buildHead
  cases headers.find? fun h => !(isHeaderName h.1 && isHeaderValue h.2) with
  | none => trivial
  | some header =>
    dsimp only
    split_ifs
    · trivial
    · trivial

namespace HandlerRules

variable (H : HandlerRules X D P R) (h : P p s)
include H h

/-- A playlist is made from the index. -/
theorem rest_playlist (f : IndexState → PlaylistResponse)
    (hf : ∀ i : IndexState, f i = f ⟨i.manifests, ∅⟩) :
    Answered P R .rest p (do return .playlist (f (← currentIndex))) (s, .playlist (f (s.index X))) :=
  H.reading h (fun i => RestReply.playlist (f i)) rfl (fun i => congrArg RestReply.playlist (hf i)) trivial

theorem rest_listMedia (query : ListQuery) : Answered P R .rest p (Rest.listMedia query) (s,
    let page := Index.listPage (query.keyPrefix.getD "") (query.limit.getD 100) (query.cursor.getD "")
      (s.index X)
    .listed (page.1.map Rest.listedMedia) page.2) :=
  H.reading h (fun i : IndexState =>
    let page := Index.listPage (query.keyPrefix.getD "") (query.limit.getD 100) (query.cursor.getD "") i
    RestReply.listed (page.1.map Rest.listedMedia) page.2) (answering_ok Rest.internalError _ rfl _)
    (fun _ => rfl) trivial

/-- What is told of one object. -/
theorem rest_manifest (key : String) (f : Option MediaManifest → RestReply)
    (hplain : ∀ m, (ApiReply.rest (f m)).Plain) :
    Answered P R .rest p (Rest.answering (Index.getManifest key) Rest.internalError f)
      (s, f (s.objects[key]?.map fun o => o.manifest X key)) :=
  .intro H (answering_ok Rest.internalError f (H.getManifest h key) p.cache) (hplain _) h

/-- Chunks are removed from the cache before the handler goes on. -/
theorem invalidating {α : Type} {reply : α → ApiReply} (ids : List ChunkId) {x : ServerM α}
    {outcome : Service × α}
    (hx : ∀ {cache}, P { p with cache } s → Answered P R reply { p with cache } x outcome) :
    Answered P R reply p (do KaidaDB.invalidateAll ids; x) outcome := by
  obtain ⟨cache, hrun, hcache⟩ := H.invalidateAll h ids
  exact .of_run (run_bind_server hrun _) (hx hcache)

theorem rest_deleteMedia (key : String) : Answered P R .rest p (Rest.deleteMedia X key)
    ((s.delete key).1, .status (if (s.delete key).2 then 204 else 404)) := by
  have hdelete : ∀ {cache}, P { p with cache } s →
      Answered P R .rest { p with cache } (Rest.answering (StorageEngine.delete X key) Rest.internalError
        fun deleted => .status (if deleted then 204 else 404))
        ((s.delete key).1, .status (if (s.delete key).2 then 204 else 404)) := fun h => by
    obtain ⟨st, hrun, hst⟩ := H.delete h key
    exact .intro H (answering_ok _ _ hrun _) trivial hst
  rw [Rest.deleteMedia]
  refine .of_run (run_bind_server (run_currentIndex _ _) _) ?_
  cases p.store.index.manifests[key]? with
  | none => exact hdelete h
  | some m => exact H.invalidating h m.chunks hdelete

theorem rest_renameMedia (request : RenameMediaRequest) :
    Answered P R .rest p (Rest.renameMedia X request) (match s.rename request.fromKey request.toKey with
      | (s', .ok o) => (s', .renamed ⟨request.toKey, o.data.length, o.contentType⟩)
      | (s', .error e) => (s', Rest.renameError e)) := by
  obtain ⟨st, hrun, hst⟩ := H.rename h request.fromKey request.toKey
  cases houtcome : s.rename request.fromKey request.toKey with
  | mk s' r =>
    rw [houtcome] at hrun hst
    cases r with
    | ok o => exact .intro H (answering_ok _ _ hrun _) trivial hst
    | error e =>
      refine .intro H (answering_error _ _ hrun _) ?_ hst
      cases e <;> trivial

theorem rest_deleteStream (streamId : String) :
    Answered P R .rest p (Rest.deleteStreamHandler X p.state.streaming streamId)
      ((s.deleteStream streamId).1,
        .streamDeleted (s.deleteStream streamId).2.1 (s.deleteStream streamId).2.2) := by
  rw [Rest.deleteStreamHandler]
  refine .of_run (run_bind_server (run_currentIndex _ _) _) (H.invalidating h _ fun h => ?_)
  obtain ⟨st, hrun, hst⟩ := H.deleteStream h streamId
  exact .intro H (answering_ok _ _ hrun _) trivial hst

theorem rest_putMedia (request : PutMedia) (hD : ∀ q, q <:+: request.frames.flatten → q ∈ D)
    (hlen : request.frames.flatten.length < 2 ^ 64) :
    Answered P R .rest p (do return .put (← (putMedia X p.state.engine request : M _)))
      ((s.put request.job).1, .put (Service.putResponse request.ending
        ((s.put request.job).2.map (·.manifest X request.job.key)))) := by
  obtain ⟨st, hrun, hst⟩ := H.put h request.job request.ending hD hlen
  exact .intro H (run_lift (putMedia_run hrun) _ _) trivial hst

theorem rest_getMedia (checks : Bool) (request : GetMedia) (key : String)
    (hkey : normalizeKey request.rawKey = key) :
    Replied P R .rest p (fun cache => do
        let download ← KaidaDB.getMedia X checks request cache
        return (.media download, download.cache))
      (s, .media ⟨match s.objects[key]? with
        | some o => o.download request.range
        | none => .text 404 "not found", none, .new 0⟩) := by
  rw [← hkey]
  exact H.getMedia h checks request

/-- **Every REST endpoint** answers as on objects. -/
theorem rest_endpoint (ops : DashOps) (checks : Bool)
    (request : RestRequest) (hD : ∀ q, q <:+: request.frames.flatten → q ∈ D)
    (hlen : request.frames.flatten.length < 2 ^ 64) (endpoint : Endpoint) :
    Replied P R .rest p (Rest.handle X ops checks p.state request endpoint)
      (s.endpoint X ops request endpoint) := by
  have hstreaming : s.state.streaming = p.state.streaming := congrArg AppState.streaming (H.state h)
  cases endpoint with
  | listMedia =>
    unfold Service.endpoint Rest.handle Rest.extracted
    cases request.query with
    | error e => exact Answered.replied (Answered.intro H rfl trivial h)
    | ok query => exact Answered.replied (H.rest_listMedia h query)
  | renameMedia =>
    unfold Service.endpoint Rest.handle Rest.extracted
    cases request.renameRequest with
    | error e => exact Answered.replied (Answered.intro H rfl trivial h)
    | ok message => exact Answered.replied (H.rest_renameMedia h message)
  | listStreams =>
    unfold Service.endpoint Rest.handle Rest.extracted
    rw [hstreaming]
    cases request.query with
    | error e => exact Answered.replied (Answered.intro H rfl trivial h)
    | ok query => exact Answered.replied (H.reading h (fun i => let page := KaidaDB.listStreams _ _ _ _ i
        RestReply.streams page.1 page.2) rfl (fun _ => rfl) trivial)
  | health => exact Answered.replied (Answered.intro H rfl trivial h)
  | getMeta key =>
    have hmeta : Answered P R .rest p (Rest.handle X ops checks p.state request (.getMeta key)) _ :=
      H.rest_manifest h key _ fun m => by cases m <;> trivial
    rw [Service.endpoint]
    cases ho : s.objects[key]? with
    | none => rw [ho] at hmeta; exact hmeta.replied
    | some o => rw [ho] at hmeta; exact hmeta.replied
  | getMedia key =>
    exact H.rest_getMedia h checks ⟨"/" ++ key, request.headers⟩ key (normalizeKey_slash key)
  | putMedia key =>
    exact Answered.replied (H.rest_putMedia h
      ⟨"/" ++ key, request.headers, request.frames, request.ending⟩ hD hlen)
  | headMedia key =>
    have hhead : Answered P R .rest p (Rest.handle X ops checks p.state request (.headMedia key)) _ :=
      H.rest_manifest h key _ fun m => by cases m <;> first | trivial | exact buildHead_plain _
    rw [Service.endpoint]
    cases ho : s.objects[key]? with
    | none => rw [ho] at hhead; exact hhead.replied
    | some o => rw [ho] at hhead; exact hhead.replied
  | deleteMedia key => exact Answered.replied (H.rest_deleteMedia h key)
  | hlsMaster streamId =>
    unfold Service.endpoint
    rw [hstreaming]
    exact Answered.replied (H.rest_playlist h (getHlsMaster p.state.streaming streamId) fun _ => rfl)
  | dashMpd streamId =>
    unfold Service.endpoint
    rw [hstreaming]
    exact Answered.replied (H.rest_playlist h (getDashMpd ops p.state.streaming streamId) fun _ => rfl)
  | hlsMediaPlaylist streamId variantId =>
    unfold Service.endpoint
    rw [hstreaming]
    exact Answered.replied (H.rest_playlist h (fun i => (getHlsMediaPlaylist ops.toFloatOps
      p.state.streaming streamId variantId i).1) fun _ => rfl)
  | deleteStream streamId => exact Answered.replied (H.rest_deleteStream h streamId)
  | methodNotAllowed => exact Answered.replied (Answered.intro H rfl trivial h)
  | notFound => exact Answered.replied (Answered.intro H rfl trivial h)

/-- **A request over REST.** -/
theorem rest (ops : DashOps) (checks : Bool) (request : RestRequest)
    (hD : ∀ q, q <:+: request.frames.flatten → q ∈ D)
    (hlen : request.frames.flatten.length < 2 ^ 64) :
    Replied P R .rest p (Rest.serve X ops checks p.state request) (s.rest X ops request) := by
  unfold Service.rest Rest.serve
  rw [show s.state.serverKeyHash = p.state.serverKeyHash from congrArg AppState.serverKeyHash (H.state h)]
  split_ifs
  · exact Answered.replied (Answered.intro H rfl trivial h)
  · rcases decision X p.state.serverKeyHash request.toClient with ⟨-, hpass⟩ | ⟨-, body, hrefuse⟩
    · rw [hpass, hpass]
      exact H.rest_endpoint h ops checks request hD hlen _
    · rw [hrefuse, hrefuse]
      exact Answered.replied (Answered.intro H rfl trivial h)

end HandlerRules

/-! ## gRPC -/

section
variable {α β : Type} {x : Handler α} {cache cache' : ChunkCache} {st st' : Store}

theorem run_map_handler {r : Except Status α} (h : x cache st = .ok (r, cache') st') (f : α → β) :
    (f <$> x) cache st = .ok (r.map f, cache') st' := by
  show ExceptT.map f x cache st = _
  simp only [ExceptT.map, ExceptT.mk, bind, StateT.bind, EStateM.bind]
  rw [h]
  cases r <;> rfl

/-- A program on the cache and the store that a method begins with. -/
theorem run_lift_server {x : ServerM α} {a : α} (h : x cache st = .ok (a, cache') st')
    (f : α → Handler β) : ((x : Handler α) >>= f) cache st = f a cache' st' := by
  simp only [bind, ExceptT.bind, ExceptT.mk, StateT.bind, EStateM.bind]
  simp [liftM, monadLift, MonadLift.monadLift, ExceptT.lift, h, Functor.map, StateT.map, bind,
    EStateM.bind, pure, EStateM.pure, ExceptT.mk, ExceptT.bindCont]

/-- A method whose answer goes into a reply. -/
theorem Answered.handler (H : HandlerRules X D P R) {x : Handler α} {r : Except Status α}
    {cache : ChunkCache} {st : Store} {s' : Service} (hrun : x p.cache p.store = .ok (r, cache) st)
    (f : α → GrpcReply) (hplain : ∀ a, (ApiReply.grpc (.ok (f a))).Plain)
    (h : P { p with cache, store := st } s') :
    Answered P R .grpc p (f <$> x : Handler GrpcReply) (s', r.map f) := by
  refine .intro H (run_map_handler hrun f) ?_ h
  cases r with
  | ok a => exact hplain a
  | error status => trivial

end

namespace HandlerRules

variable {ops : DashOps} (H : HandlerRules X D P R) (h : P p s)
include H h

theorem grpc_deleteMedia (key : String) :
    Answered P R .grpc p (GrpcReply.deleted <$> Grpc.deleteMedia X ⟨.ok (), key⟩ : Handler GrpcReply)
      (s.call X ops (.deleteMedia key)) := by
  have hrun : ∃ cache st, Grpc.deleteMedia X ⟨.ok (), key⟩ p.cache p.store
      = .ok (.ok (s.delete key).2, cache) st ∧
        P { p with cache, store := st } (s.delete key).1 := by
    rw [Grpc.deleteMedia, run_intoInner, run_lift_server (run_currentIndex p.cache p.store)]
    dsimp only
    cases p.store.index.manifests[key]? with
    | none =>
      obtain ⟨st, hdelete, hst⟩ := H.delete h key
      exact ⟨_, st, mapErr_ok _ hdelete _, hst⟩
    | some m =>
      obtain ⟨cache, hinvalidate, hcache⟩ := H.invalidateAll h m.chunks
      obtain ⟨st, hdelete, hst⟩ := H.delete hcache key
      exact ⟨cache, st, (run_lift_server hinvalidate _).trans (mapErr_ok _ hdelete _), hst⟩
  obtain ⟨cache, st, hrun, hst⟩ := hrun
  exact .handler H hrun .deleted (fun _ => trivial) hst

theorem grpc_renameMedia (message : RenameMediaRequest) :
    Answered P R .grpc p (GrpcReply.renamed <$> Grpc.renameMedia X ⟨.ok (), message⟩ : Handler GrpcReply)
      (s.call X ops (.renameMedia message)) := by
  obtain ⟨fromKey, toKey⟩ := message
  rw [Service.call]
  by_cases hempty : fromKey = "" ∨ toKey = ""
  · have hrun : Grpc.renameMedia X ⟨.ok (), ⟨fromKey, toKey⟩⟩ p.cache p.store
        = .ok (.error (.mk .invalidArgument "from_key and to_key are required"), p.cache) p.store := by
      rw [Grpc.renameMedia, run_intoInner]
      dsimp only
      rw [if_pos hempty]
      rfl
    rw [if_pos hempty]
    exact .handler H hrun .renamed (fun _ => trivial) h
  · obtain ⟨st, hrename, hst⟩ := H.rename h fromKey toKey
    rw [if_neg hempty]
    cases houtcome : s.rename fromKey toKey with
    | mk s' r =>
      rw [houtcome] at hrename hst
      cases r with
      | ok o =>
        have hrun : Grpc.renameMedia X ⟨.ok (), ⟨fromKey, toKey⟩⟩ p.cache p.store
            = .ok (.ok ⟨toKey, o.data.length, o.contentType⟩, p.cache) st := by
          rw [Grpc.renameMedia, run_intoInner]
          dsimp only
          rw [if_neg hempty]
          exact run_bind_ok (mapErr_ok _ hrename _) _
        exact .handler H hrun .renamed (fun _ => trivial) hst
      | error e =>
        have hrun : Grpc.renameMedia X ⟨.ok (), ⟨fromKey, toKey⟩⟩ p.cache p.store
            = .ok (.error (Grpc.renameStatus e), p.cache) st := by
          rw [Grpc.renameMedia, run_intoInner]
          dsimp only
          rw [if_neg hempty]
          exact run_bind_error (mapErr_error _ hrename _) _
        exact .handler H hrun .renamed (fun _ => trivial) hst

theorem grpc_deleteStream (streamId : String) :
    Answered P R .grpc p
      (GrpcReply.streamDeleted <$> Grpc.deleteStream X p.state.streaming ⟨.ok (), streamId⟩ :
        Handler GrpcReply)
      (s.call X ops (.deleteStream streamId)) := by
  obtain ⟨cache, hinvalidate, hcache⟩ := H.invalidateAll h
    (Grpc.streamChunks p.state.streaming streamId p.store.index)
  obtain ⟨st, hdelete, hst⟩ := H.deleteStream hcache streamId
  have hrun : Grpc.deleteStream X p.state.streaming ⟨.ok (), streamId⟩ p.cache p.store
      = .ok (.ok ⟨(s.deleteStream streamId).2.1, (s.deleteStream streamId).2.2⟩, cache) st := by
    rw [Grpc.deleteStream, run_intoInner, run_lift_server (run_currentIndex p.cache p.store),
      run_lift_server hinvalidate]
    exact run_bind_ok (mapErr_ok _ hdelete _) _
  exact .handler H hrun .streamDeleted (fun _ => trivial) hst

/-- A method that only asks the index. -/
theorem grpc_reading {α : Type} {x : Handler α} (f : IndexState → Except Status α)
    (hrun : x p.cache p.store = .ok (f p.store.index, p.cache) p.store)
    (hf : ∀ i : IndexState, f i = f ⟨i.manifests, ∅⟩) (g : α → GrpcReply)
    (hplain : ∀ a, (ApiReply.grpc (.ok (g a))).Plain) :
    Answered P R .grpc p (g <$> x : Handler GrpcReply) (s, (f (s.index X)).map g) := by
  rw [H.reads_index h f hf] at hrun
  exact .handler H hrun g hplain h

/-- A playlist over gRPC, or that there is none. -/
theorem grpc_playlist {x : Handler PlaylistMessage} (contentType message : String)
    (f : IndexState → PlaylistResponse) (hf : ∀ i : IndexState, f i = f ⟨i.manifests, ∅⟩)
    (hrun : x p.cache p.store = .ok (match f p.store.index with
      | .notFound => .error (.mk .notFound message)
      | .ok _ body => .ok ⟨contentType, body⟩, p.cache) p.store) :
    Answered P R .grpc p (GrpcReply.playlist <$> x : Handler GrpcReply) (s, match f (s.index X) with
      | .notFound => .error (.mk .notFound message)
      | .ok _ body => .ok (.playlist ⟨contentType, body⟩)) := by
  have hreading := H.grpc_reading h (fun i => match f i with
    | .notFound => .error (.mk .notFound message)
    | .ok _ body => .ok ⟨contentType, body⟩) hrun (fun i => by rw [hf i]) .playlist (fun _ => trivial)
  cases hplaylist : f (s.index X) with
  | notFound => rwa [hplaylist] at hreading
  | ok headers body => rwa [hplaylist] at hreading

omit H h in
/-- The frames of an upload are the chunks among its messages. -/
theorem job_frames {auth : Except Status Unit} {messages : List (Option StoreMediaPayload)} {ending : Ending}
    {job : Upload.Job} (hjob : StoreMedia.job ⟨auth, messages, ending⟩ = .ok job) :
    job.frames = StoreMedia.chunks messages := by
  unfold StoreMedia.job at hjob
  cases auth with
  | error status => cases hjob
  | ok u =>
    rcases messages with _ | ⟨_ | _ | _, rest⟩
    · cases ending <;> cases hjob
    · cases hjob
    · dsimp only at hjob
      split_ifs at hjob
      cases hjob
      rfl
    · cases hjob

/-- **An upload over gRPC.** -/
theorem grpc_storeMedia {client : Client} (hauth : checkAuth X p.state.serverKeyHash client = .ok ())
    (messages : List (Option StoreMediaPayload)) (ending : Ending)
    (hD : ∀ q, q <:+: (StoreMedia.chunks messages).flatten → q ∈ D)
    (hlen : (StoreMedia.chunks messages).flatten.length < 2 ^ 64) :
    Answered P R .grpc p (Grpc.serve X ops p.state client (.storeMedia messages ending))
      (s.call X ops (.storeMedia messages ending)) := by
  unfold Grpc.serve Service.call
  rw [hauth]
  dsimp only
  cases hjob : StoreMedia.job ⟨.ok (), messages, ending⟩ with
  | error status =>
    have hrun : storeMedia X p.state.engine ⟨.ok (), messages, ending⟩ p.store
        = .ok (status.map .error) p.store := by
      rw [storeMedia, hjob]
      rfl
    cases status with
    | none => exact .intro H (run_lift_handler hrun _ _) trivial h
    | some status => exact .intro H (run_lift_handler hrun _ _) trivial h
  | ok job =>
    rw [← job_frames hjob] at hD hlen
    obtain ⟨st, hworker, hst⟩ := H.put h job ending hD hlen
    obtain ⟨answer, hrun, hanswer⟩ := storeMedia_run ⟨.ok (), messages, ending⟩ hjob hworker
    dsimp only at hanswer ⊢
    rw [← hanswer]
    rcases answer with _ | status | response
    · exact .intro H (run_lift_handler hrun _ _) trivial hst
    · exact .intro H (run_lift_handler hrun _ _) trivial hst
    · exact .intro H (run_lift_handler hrun _ _) trivial hst

theorem grpc_getMediaMeta (key : String) :
    Answered P R .grpc p (GrpcReply.media <$> Grpc.getMediaMeta ⟨.ok (), key⟩ : Handler GrpcReply)
      (s.call X ops (.getMediaMeta key)) := by
  have hrun : Grpc.getMediaMeta ⟨.ok (), key⟩ p.cache p.store
      = .ok (match s.objects[key]? with
        | some o => .ok (manifestToMetadata (o.manifest X key))
        | none => .error (.mk .notFound s!"key not found: {key}"), p.cache) p.store := by
    rw [Grpc.getMediaMeta, run_intoInner, run_bind_ok (mapErr_ok _ (H.getManifest h key) _)]
    cases s.objects[key]? <;> rfl
  have hreply := Answered.handler H hrun GrpcReply.media (fun _ => trivial) h
  rw [Service.call]
  cases ho : s.objects[key]? with
  | none => rwa [ho] at hreply
  | some o => rwa [ho] at hreply

theorem grpc_listMedia (message : ListRequest) :
    Answered P R .grpc p (GrpcReply.listed <$> Grpc.listMedia ⟨.ok (), message⟩ : Handler GrpcReply)
      (s.call X ops (.listMedia message)) := by
  have hrun : Grpc.listMedia ⟨.ok (), message⟩ p.cache p.store
      = .ok (.ok (let page := Index.listPage message.keyPrefix message.pageLimit message.cursor p.store.index
        ⟨page.1.map manifestToMetadata, page.2.getD ""⟩), p.cache) p.store := by
    have hlist : Index.listManifests message.keyPrefix message.pageLimit message.cursor p.store
        = .ok (Index.listPage message.keyPrefix message.pageLimit message.cursor p.store.index) p.store := rfl
    rw [Grpc.listMedia, run_intoInner, run_bind_ok (mapErr_ok _ hlist _)]
    rfl
  exact H.grpc_reading h (fun i =>
    let page := Index.listPage message.keyPrefix message.pageLimit message.cursor i
    .ok ⟨page.1.map manifestToMetadata, page.2.getD ""⟩) hrun (fun _ => rfl) .listed (fun _ => trivial)

section
variable {config : PlaylistConfig ℚ} (hconfig : s.state.streaming = config)
include hconfig

theorem grpc_getHlsMasterPlaylist (streamId : String) :
    Answered P R .grpc p
      (GrpcReply.playlist <$> Grpc.getHlsMasterPlaylist config ⟨.ok (), streamId⟩ : Handler GrpcReply)
      (s.call X ops (.getHlsMasterPlaylist streamId)) := by
  rw [Service.call, hconfig]
  refine H.grpc_playlist h _ _ (getHlsMaster config streamId) (fun _ => rfl) ?_
  rw [Grpc.getHlsMasterPlaylist, run_intoInner, run_lift_server (run_currentIndex _ _)]
  cases getHlsMaster config streamId p.store.index <;> rfl

theorem grpc_getHlsMediaPlaylist (message : GetVariantPlaylistRequest) :
    Answered P R .grpc p
      (GrpcReply.playlist <$> Grpc.getHlsMediaPlaylist ops config ⟨.ok (), message⟩ : Handler GrpcReply)
      (s.call X ops (.getHlsMediaPlaylist message)) := by
  rw [Service.call, hconfig]
  refine H.grpc_playlist h _ _ (fun i => (getHlsMediaPlaylist ops.toFloatOps config message.streamId
    message.variantId i).1) (fun _ => rfl) ?_
  rw [Grpc.getHlsMediaPlaylist, run_intoInner, run_lift_server (run_currentIndex _ _)]
  cases (getHlsMediaPlaylist ops.toFloatOps config message.streamId message.variantId p.store.index).1 <;>
    rfl

theorem grpc_getDashManifest (streamId : String) :
    Answered P R .grpc p
      (GrpcReply.playlist <$> Grpc.getDashManifest ops config ⟨.ok (), streamId⟩ : Handler GrpcReply)
      (s.call X ops (.getDashManifest streamId)) := by
  rw [Service.call, hconfig]
  refine H.grpc_playlist h _ _ (getDashMpd ops config streamId) (fun _ => rfl) ?_
  rw [Grpc.getDashManifest, run_intoInner, run_lift_server (run_currentIndex _ _)]
  cases getDashMpd ops config streamId p.store.index <;> rfl

theorem grpc_listStreams (message : ListRequest) :
    Answered P R .grpc p
      (GrpcReply.streams <$> Grpc.listStreams config ⟨.ok (), message⟩ : Handler GrpcReply)
      (s.call X ops (.listStreams message)) := by
  have hrun : Grpc.listStreams config ⟨.ok (), message⟩ p.cache p.store
      = .ok (.ok (
        let page := KaidaDB.listStreams config.toStreamingConfig message.keyPrefix message.pageLimit
          message.cursor p.store.index
        ⟨page.1.map StreamListItem.streamId, page.2.getD ""⟩), p.cache) p.store := by
    rw [Grpc.listStreams, run_intoInner, run_lift_server (run_currentIndex _ _)]
    rfl
  rw [Service.call, hconfig]
  exact H.grpc_reading h (fun i =>
    let page := KaidaDB.listStreams config.toStreamingConfig message.keyPrefix message.pageLimit
      message.cursor i
    .ok ⟨page.1.map StreamListItem.streamId, page.2.getD ""⟩) hrun (fun _ => rfl) .streams
    (fun _ => trivial)

end

/-- **Every gRPC method** answers as on objects. -/
theorem grpc_call {client : Client}
    (hauth : checkAuth X p.state.serverKeyHash client = .ok ()) (call : GrpcCall)
    (hsized : (ApiRequest.grpc client call).Sized)
    (hD : ∀ q, q <:+: (ApiRequest.grpc client call).body → q ∈ D) :
    Replied P R .grpc p (Grpc.serve X ops p.state client call) (s.call X ops call) := by
  have hconfig : s.state.streaming = p.state.streaming := congrArg AppState.streaming (H.state h)
  cases call with
  | storeMedia messages ending => exact Answered.replied (H.grpc_storeMedia h hauth messages ending hD hsized)
  | streamMedia key offset length =>
    unfold Grpc.serve
    rw [hauth]
    exact H.streamMedia h key offset length hsized.1 hsized.2
  | getMediaMeta key =>
    unfold Grpc.serve
    rw [hauth]
    exact Answered.replied (H.grpc_getMediaMeta h key)
  | deleteMedia key =>
    unfold Grpc.serve
    rw [hauth]
    exact Answered.replied (H.grpc_deleteMedia h key)
  | renameMedia message =>
    unfold Grpc.serve
    rw [hauth]
    exact Answered.replied (H.grpc_renameMedia h message)
  | listMedia message =>
    unfold Grpc.serve
    rw [hauth]
    exact Answered.replied (H.grpc_listMedia h message)
  | healthCheck =>
    unfold Grpc.serve
    rw [hauth]
    exact Answered.replied (Answered.intro H rfl trivial h)
  | getHlsMasterPlaylist streamId =>
    unfold Grpc.serve
    rw [hauth]
    exact Answered.replied (H.grpc_getHlsMasterPlaylist h hconfig streamId)
  | getHlsMediaPlaylist message =>
    unfold Grpc.serve
    rw [hauth]
    exact Answered.replied (H.grpc_getHlsMediaPlaylist h hconfig message)
  | getDashManifest streamId =>
    unfold Grpc.serve
    rw [hauth]
    exact Answered.replied (H.grpc_getDashManifest h hconfig streamId)
  | listStreams message =>
    unfold Grpc.serve
    rw [hauth]
    exact Answered.replied (H.grpc_listStreams h hconfig message)
  | deleteStream streamId =>
    unfold Grpc.serve
    rw [hauth]
    exact Answered.replied (H.grpc_deleteStream h streamId)

variable (ops)

/-- **A call over gRPC.** -/
theorem grpc (client : Client) (call : GrpcCall)
    (hsized : (ApiRequest.grpc client call).Sized)
    (hD : ∀ q, q <:+: (ApiRequest.grpc client call).body → q ∈ D) :
    Replied P R .grpc p (Grpc.serve X ops p.state client call) (s.grpc X ops client call) := by
  unfold Service.grpc
  rw [show s.state.serverKeyHash = p.state.serverKeyHash from congrArg AppState.serverKeyHash (H.state h)]
  cases hauth : checkAuth X p.state.serverKeyHash client with
  | error status => exact Answered.replied (Answered.intro H (serve_grpc_refused hauth call _ _) trivial h)
  | ok u => exact H.grpc_call h hauth call hsized hD

end HandlerRules

/-- **A request**, over either API. -/
theorem HandlerRules.serve (H : HandlerRules X D P R) (h : P p s) (ops : DashOps) (checks : Bool)
    (request : ApiRequest) (hsized : request.Sized) (hD : ∀ q, q <:+: request.body → q ∈ D) :
    P (p.serve X ops checks request).1 (s.serve X ops request).1 ∧
      R (p.serve X ops checks request).2 (s.serve X ops request).2 := by
  cases request with
  | rest request => exact (H.rest h ops checks request hD hsized).symm
  | grpc client call => exact (H.grpc ops h client call hsized hD).symm

end KaidaDB
