import KaidaDB.Api.Proof.Auth
import KaidaDB.Api.Proof.GetMedia
import KaidaDB.Api.Proof.Handlers
import KaidaDB.Api.Proof.PlaylistUrls
import KaidaDB.Api.Proof.UploadFaults
import KaidaDB.Api.StoredObjects

/-!
# Objects stored over one API and asked for over the other

What `store_media` commits is what `store_with_metadata` makes of all bytes at once (`stored_at_once`), so
an upload is a call of the server's runs. Its content type and metadata come back as headers, which may
not be ones (`served_iff`).
-/

namespace KaidaDB

open Effects

variable {X : Crates} {engine : StorageEngine}

/-! ## Uploads as calls -/

/-- A store that is reported as done has been done by the worker. -/
theorem storeMedia_stored {request : StoreMedia} {response : StoreMediaResponse} {s s' : Store}
    (h : storeMedia X engine request s = .ok (some (.ok response)) s') :
    ∃ job m, request.job = .ok job ∧ uploadWorker X engine job request.ending s = .ok m s' := by
  unfold storeMedia at h
  cases hjob : request.job with
  | error status =>
    rw [hjob] at h
    cases status <;> cases h
  | ok job =>
    rw [hjob] at h
    dsimp only at h
    rw [run_bind] at h
    cases hworker : uploadWorker X engine job request.ending s with
    | ok m s1 =>
      rw [show join _ s = .ok (.ok m) s1 from attempt_ok hworker] at h
      dsimp only at h
      cases hend : request.ending with
      | clean =>
        rw [hend] at h hworker
        cases h
        exact ⟨job, m, rfl, hworker⟩
      | readError text refused =>
        rw [hend] at h
        cases refused <;> cases h
      | dropped =>
        rw [hend] at h
        cases h
    | error e s1 =>
      rw [show join _ s = .ok (.error e) s1 from attempt_error hworker] at h
      dsimp only at h
      cases hend : request.ending with
      | readError text refused =>
        rw [hend] at h
        dsimp only at h
        split_ifs at h <;> cases e <;> cases h
      | clean =>
        rw [hend] at h
        cases e <;> cases h
      | dropped =>
        rw [hend] at h
        cases h

/-- **An upload in pieces is one of all bytes at once.** -/
theorem stored_at_once (hsize : 0 < engine.chunkSize) {job : Upload.Job} {ending : Ending}
    {m : MediaManifest} {s s' : Store} (h : uploadWorker X engine job ending s = .ok m s') :
    Spec.mayBegin engine job.key = .ok () ∧
      (engine.maxObjectSize = 0 ∨ job.frames.flatten.length ≤ engine.maxObjectSize) ∧
      engine.storeWithMetadata X job.key job.frames.flatten job.contentType job.metadata s = .ok m s' := by
  unfold uploadWorker at h
  rw [received_eq, run_bind] at h
  cases hbegin : engine.beginStore job.key job.contentType job.metadata s with
  | error e s1 =>
    rw [hbegin] at h
    cases h
  | ok t s1 =>
    rw [hbegin] at h
    dsimp only at h
    obtain ⟨rfl, rfl, hmay⟩ := beginStore_ok hbegin
    have hroom : (engine.newSession job.key job.contentType job.metadata).HasRoom := hsize
    rw [withSession, run_bind, uploadLoop_eq, run_tryCatch] at h
    cases hwrite : StoreSession.writeAll X job.frames
      (engine.newSession job.key job.contentType job.metadata, s1) with
    | error e p =>
      rw [hwrite] at h
      dsimp only at h
      obtain ⟨q, hq⟩ := abortOn_error (X := X) e p
      rw [hq] at h
      cases h
    | ok u p =>
      have hfits : engine.maxObjectSize = 0 ∨ job.frames.flatten.length ≤ engine.maxObjectSize := by
        by_contra hbig
        obtain ⟨e, q, herr⟩ := writeAll_tooLarge (X := X) (s := s1) hroom
          (.inr (by simp [StoreSession.bytesWritten, StorageEngine.newSession]))
          (mt newSession_fits.1 hbig)
        cases herr.symm.trans hwrite
      refine ⟨hmay, hfits, ?_⟩
      rw [← storeInWrites_eq hsize hfits, StorageEngine.storeInWrites, run_bind, hbegin]
      dsimp only
      rw [withSession, run_bind, hwrite]
      rw [hwrite] at h
      exact h

/-- A commit over gRPC leaves the cache as it is. -/
theorem serve_stored {ops : DashOps} {state : AppState} {client : Client}
    {messages : List (Option StoreMediaPayload)} {ending : Ending} {cache cache' : ChunkCache}
    {response : StoreMediaResponse} {s s' : Store}
    (h : Grpc.serve X ops state client (.storeMedia messages ending) cache s
      = .ok (.ok (.stored response), cache') s') :
    cache' = cache ∧ storeMedia X state.engine ⟨checkAuth X state.serverKeyHash client, messages, ending⟩ s
      = .ok (some (.ok response)) s' := by
  rw [Grpc.serve] at h
  cases hstore : storeMedia X state.engine ⟨checkAuth X state.serverKeyHash client, messages, ending⟩ s with
  | error e s1 =>
    rw [run_lift_error hstore] at h
    cases h
  | ok r s1 =>
    rw [run_lift_handler hstore] at h
    rcases r with _ | status | r
    · cases h
    · cases h
    · cases h
      exact ⟨rfl, rfl⟩

/-- Chunks of known bytes are known by their ids. -/
theorem eq_of_ids {D : Set Bytes} (hinj : Set.InjOn X.sha256 D) : ∀ {l l' : List Bytes},
    (∀ p ∈ l, p ∈ D) → (∀ p ∈ l', p ∈ D) →
    l.map (ChunkId.fromData X) = l'.map (ChunkId.fromData X) → l = l'
  | [], l', _, _, h => (List.map_eq_nil_iff.1 h.symm).symm
  | p :: l, [], _, _, h => by cases h
  | p :: l, p' :: l', hl, hl', h => by
    rw [List.map_cons, List.map_cons, List.cons.injEq] at h
    have hp : p = p' := hinj (hl p List.mem_cons_self) (hl' p' List.mem_cons_self)
      (congrArg ChunkId.bytes h.1)
    rw [hp, eq_of_ids hinj (fun q hq => hl q (List.mem_cons_of_mem _ hq))
      (fun q hq => hl' q (List.mem_cons_of_mem _ hq)) h.2]

/-- Without collisions a manifest describes one object. -/
theorem Describes.unique {D : Set Bytes} (hinj : Set.InjOn X.sha256 D) {m : MediaManifest}
    {d d' : Bytes} (h : Describes X D m d) (h' : Describes X D m d') : d = d' := by
  have hslices := eq_of_ids hinj h.known h'.known (h.chunks.symm.trans h'.chunks)
  rw [← Slices.flatten_slices h.size d, hslices, Slices.flatten_slices h.size]

theorem Server.run_append (s : Server) (actions later : List ServerAction) :
    s.run X (actions ++ later) = (s.run X actions).run X later := by
  induction actions generalizing s with
  | nil => rfl
  | cons action actions ih => exact ih (s.step X action)

/-! ## Headers -/

/-- Header values have no control characters other than tab. -/
theorem isHeaderValue_iff {s : String} : isHeaderValue s = true ↔
    ∀ c ∈ s.toList, c = '\t' ∨ 0x20 ≤ c.toNat ∧ c.toNat ≠ 0x7f := by
  rw [isHeaderValue, List.all_eq_true]
  have htab : UInt8.ofNat '\t'.toNat = 0x09 := rfl
  have hbyte : ∀ {c : Char}, c.toNat < 0x80 → (UInt8.ofNat c.toNat).toNat = c.toNat := fun h => by
    rw [UInt8.toNat_ofNat', Nat.mod_eq_of_lt (by omega)]
  constructor
  · intro h c hc
    by_cases hascii : c.toNat < 0x80
    · have hvalid := h _ ((Utf8.mem_encode_ascii hascii).2 hc)
      simp only [Bool.or_eq_true, Bool.and_eq_true, decide_eq_true_eq, ← UInt8.toNat_inj, ne_eq,
        UInt8.le_iff_toNat_le, hbyte hascii] at hvalid
      exact hvalid.imp (fun h => Char.toNat_inj.1 h) id
    · exact .inr ⟨by omega, by omega⟩
  · intro h b hb
    obtain ⟨c, hc, hbc⟩ := List.mem_flatMap.1 hb
    simp only [Bool.or_eq_true, Bool.and_eq_true, decide_eq_true_eq, ← UInt8.toNat_inj, ne_eq,
      UInt8.le_iff_toNat_le]
    by_cases hascii : c.toNat < 0x80
    · rw [Utf8.utf8EncodeChar_ascii hascii, List.mem_singleton] at hbc
      rw [hbc, hbyte hascii]
      exact (h c hc).imp (fun heq => by rw [heq]; rfl) id
    · have hlarge := Utf8.le_of_mem_utf8EncodeChar hbc (by omega)
      exact .inr ⟨le_trans (by decide) hlarge, fun heq => by rw [heq] at hlarge; exact absurd hlarge (by decide)⟩

theorem isHeaderValue_number (n : Nat) : isHeaderValue (toString n) = true := by
  rw [isHeaderValue_iff]
  intro c hc
  obtain ⟨h0, h9⟩ := Decimal.digit_of_mem_toString hc
  exact .inr ⟨by omega, by omega⟩

theorem isHeaderValue_hex (bs : Bytes) : isHeaderValue (String.ofList (hexEncode bs)) = true := by
  rw [isHeaderValue_iff, String.toList_ofList]
  intro c hc
  have hdigits : ∀ n < 16, 0x20 ≤ (hexDigit n).toNat ∧ (hexDigit n).toNat ≠ 0x7f := by decide
  obtain ⟨b, -, hb⟩ := List.mem_flatMap.1 hc
  have hlt := b.toNat_lt
  rcases List.mem_pair.1 hb with rfl | rfl
  · exact .inr (hdigits _ (by omega))
  · exact .inr (hdigits _ (by omega))

/-- What metadata has to be made of to stand in headers. -/
def HeaderMetadata (metadata : List (String × String)) : Prop :=
  ∀ p ∈ metadata, p.1.toList.all isTokenChar = true ∧ isHeaderValue p.2 = true

theorem isHeaderName_meta (k : String) :
    isHeaderName ("X-KaidaDB-Meta-" ++ k) = k.toList.all isTokenChar := by
  have hne : "X-KaidaDB-Meta-" ++ k ≠ "" := fun h => by simpa using congrArg String.toList h
  have hstart : "X-KaidaDB-Meta-".toList.all isTokenChar = true := by decide
  rw [isHeaderName, decide_eq_true hne, Bool.true_and, String.toList_append, List.all_append, hstart,
    Bool.true_and]

theorem buildHead_valid {headers : List (String × String)}
    (h : ∀ p ∈ headers, isHeaderName p.1 = true ∧ isHeaderValue p.2 = true) :
    Rest.buildHead headers = .head headers := by
  have hnone : (headers.find? fun p => !(isHeaderName p.1 && isHeaderValue p.2)) = none :=
    List.find?_eq_none.2 fun p hp => by simp [h p hp]
  rw [Rest.buildHead, hnone]

/-- A reply that has headers has all of them. -/
theorem valid_of_buildHead {headers headers' : List (String × String)}
    (h : Rest.buildHead headers = .head headers') {p : String × String} (hp : p ∈ headers) :
    isHeaderName p.1 = true ∧ isHeaderValue p.2 = true := by
  rw [Rest.buildHead] at h
  cases hfind : headers.find? fun p => !(isHeaderName p.1 && isHeaderValue p.2) with
  | some q =>
    rw [hfind] at h
    dsimp only at h
    split_ifs at h
  | none => simpa using List.find?_eq_none.1 hfind p hp

/-! ## The object on the server -/

section
variable {ops : DashOps} (u : GrpcUpload X ops)

/-- The job of the upload is that of its header. -/
theorem GrpcUpload.job_eq {job : Upload.Job}
    (h : StoreMedia.job ⟨checkAuth X u.state.serverKeyHash u.client,
      some (.header u.key u.contentType u.metadata) :: u.messages, u.ending⟩ = .ok job) :
    job = ⟨u.key, u.contentType, u.metadata, StoreMedia.chunks u.messages⟩ := by
  rw [StoreMedia.job] at h
  dsimp only at h
  cases hauth : checkAuth X u.state.serverKeyHash u.client with
  | error status =>
    rw [hauth] at h
    cases h
  | ok _ =>
    rw [hauth] at h
    dsimp only at h
    split_ifs at h
    cases h
    rfl

/-- **What a commit leaves**: the manifest has the content type and metadata of the header, and the server
goes on as after a call. -/
theorem GrpcUpload.commits (hX : X.Lawful) (hfree : CollisionFree X u.engine u.calls) :
    let D := pieces ((Spec.fresh u.engine).receivedIn u.calls)
    ∃ m, u.committed.index.manifests[u.key]? = some m ∧ m.contentType = u.contentType ∧
      m.metadata = u.metadata ∧ Describes X D m u.data ∧
      u.server = (Server.start u.engine u.dataDir u.maxSize).run X
        (u.before ++ .call (.store u.key u.data u.contentType u.metadata) :: u.later) := by
  intro D
  let s0 := (Server.start u.engine u.dataDir u.maxSize).run X u.before
  let calls := u.before.filterMap ServerAction.call?
  have hsplit : (Spec.fresh u.engine).receivedIn u.calls = (Spec.fresh u.engine).receivedIn calls
      ++ ((Spec.fresh u.engine).run calls).1.receivedIn
        (.store u.key u.data u.contentType u.metadata :: u.later.filterMap ServerAction.call?) :=
    Spec.receivedIn_append calls _ _
  have hbefore : Sim X D s0.world ((Spec.fresh u.engine).run calls).1 ∧ Cached X D s0.cache :=
    Server.run_sim hX hfree u.before (Sim.fresh u.sized u.dataDir) (Cached.new u.maxSize)
      u.beforeSized (pieces_mono (hsplit ▸ List.subset_append_left _ _))
  obtain ⟨hsim, -⟩ := hbefore
  obtain ⟨-, hstored⟩ := serve_stored u.stored
  obtain ⟨job, m, hjob, hworker⟩ := storeMedia_stored hstored
  obtain rfl := u.job_eq hjob
  rw [u.sameEngine] at hworker
  obtain ⟨hmay, hfits, hstore⟩ := stored_at_once hsim.sized hworker
  have hknown : ∀ p : Bytes, p <:+: u.data → p ∈ D := fun p hp => by
    refine ⟨u.data, ?_, hp⟩
    rw [hsplit]
    exact List.mem_append_right _ List.mem_cons_self
  have hsmall : ¬ (s0.world.engine.maxObjectSize ≠ 0 ∧
      s0.world.engine.maxObjectSize < ([] : Bytes).length + u.data.length) := by
    rintro ⟨hlimit, hbig⟩
    rw [List.length_nil, Nat.zero_add] at hbig
    exact absurd hbig (Nat.not_lt.2 (hfits.resolve_left hlimit))
  obtain ⟨t, now, c', hdoes, hset, -, -, hd, hmanifests⟩ := hsim.does_store u.key u.data u.contentType
    u.metadata hmay hsmall hknown
  obtain ⟨s', hrun, -, hview⟩ := hdoes s0.world.store hsim.healthy rfl
  have hstored : s0.world.engine.storeWithMetadata X u.key u.data u.contentType u.metadata s0.world.store
      = .ok m u.committed := hstore
  cases hstored.symm.trans hrun
  refine ⟨_, ?_, congrArg (fun p => p.2.2.2.1) hset, congrArg (fun p => p.2.2.2.2) hset, hd, ?_⟩
  · have hlookup := congrArg (fun v : View => v.index.manifests[u.key]?) hview
    refine hlookup.trans ?_
    rw [hmanifests, FinMap.get_insert, if_pos rfl]
  · rw [Server.run_append]
    have hcall : (s0.step X (.call (.store u.key u.data u.contentType u.metadata)))
        = { s0 with world.store := u.committed } := by
      rw [Server.step, World.step, World.onEngine, hstored]
    rw [GrpcUpload.server, Server.run, hcall]

/-- **The object is served** wherever the server is later on. -/
theorem GrpcUpload.serves (hX : X.Lawful) (hfree : CollisionFree X u.engine u.calls) :
    ∃ m, u.server.Serves X (pieces ((Spec.fresh u.engine).receivedIn u.calls)) u.key m u.data ∧
      m.contentType = u.contentType ∧ m.metadata = u.metadata := by
  obtain ⟨m, hm, htype, hmetadata, hd, hserver⟩ := u.commits hX hfree
  let actions := u.before ++ .call (.store u.key u.data u.contentType u.metadata) :: u.later
  have hcalls : actions.filterMap ServerAction.call? = u.calls := by
    rw [List.filterMap_append]
    rfl
  have hsized : ∀ call ∈ actions.filterMap ServerAction.call?, call.Sized := by
    intro call hcall
    rw [hcalls, GrpcUpload.calls, List.mem_append, List.mem_cons] at hcall
    rcases hcall with hcall | rfl | hcall
    · exact u.beforeSized call hcall
    · trivial
    · exact u.laterSized call hcall
  have hkept : ((Server.start u.engine u.dataDir u.maxSize).run X actions).world.store.index.manifests[
      u.key]? = some m := hserver ▸ u.kept.trans hm
  obtain ⟨d, -, hserves⟩ := Server.serves_manifest hX u.engine u.dataDir u.maxSize actions u.sized hsized
    (hcalls ▸ hfree) hkept
  rw [hcalls] at hserves
  rw [← hserves.describes.unique hfree hd, hserver]
  exact ⟨m, hserves, htype, hmetadata⟩

/-! ## Requests -/

theorem normalizeKey_slash (key : String) : normalizeKey ("/" ++ key) = key := by
  rw [normalizeKey, String.toList_append]
  exact String.ofList_toList

/-- Every key has a path. -/
theorem route_mediaPath (key : String) :
    route .get (mediaPath key) = .getMedia key ∧ route .head (mediaPath key) = .headMedia key := by
  have hslash : ∀ l : List Char, Percent.decode ('/' :: l) = Utf8.encode ['/'] ++ Percent.decode l := by
    intro l
    match l with
    | [] | [_] => rfl
    | h :: d :: l => rw [Percent.decode, Percent.escaped?, if_neg (by decide)]; rfl
  have hdecode : percentDecodeLossy (String.ofList ('/' :: Percent.escape (Utf8.encode key.toList)))
      = "/" ++ key := by
    rw [percentDecodeLossy, String.toList_ofList, hslash, Percent.decode_escape, ← Utf8.encode_append,
      Utf8.lossy_encode, String.ofList_append, String.ofList_toList]
  have hroute : ∀ method, route method (mediaPath key) = combinedFallback method (mediaPath key) := by
    intro method
    have hrename : ∀ l, "/v1/media/" ++ String.ofList ('/' :: l) ≠ "/v1/media/rename" := by
      intro l h
      simpa using congrArg String.toList h
    rw [mediaPath, route, if_neg (append_ne (by decide) _), if_neg (hrename _),
      if_neg (append_ne (by decide) _), if_neg (append_ne (by decide) _)]
  rw [hroute, hroute, combinedFallback, combinedFallback, mediaPath,
    stripPrefix?_none (by decide) (by decide), stripPrefix?_none (by decide) (by decide),
    stripPrefix?_iff.2 rfl]
  dsimp only
  rw [hdecode, normalizeKey_slash]
  exact ⟨rfl, rfl⟩

/-- A request that is let through is handled. -/
theorem serve_reaches {checks : Bool} {state : AppState} {request : RestRequest} {method : Method}
    {endpoint : Endpoint} (h : request.Reaches X state method endpoint) (hmethod : method ≠ .options) :
    Rest.serve X ops checks state request = Rest.handle X ops checks state request endpoint := by
  rw [Rest.serve, if_neg (h.method ▸ hmethod), h.endpoint]
  exact h.passes.2 _ _

variable (ops) in
/-- **HEAD requests**: the headers are those of the manifest, if they are ones. -/
theorem head_iff {D : Set Bytes} {s : Server} {key : String} {m : MediaManifest} {d : Bytes}
    (h : s.Serves X D key m d) (checks : Bool) {state : AppState} {request : RestRequest}
    (hreaches : request.Reaches X state .head (.headMedia key)) :
    (∃ reply cache s', Rest.serve X ops checks state request s.cache s.world.store
        = .ok (reply, cache) s' ∧ reply.DescribesObject m.contentType m.metadata d) ↔
      isHeaderValue m.contentType = true ∧ HeaderMetadata m.metadata := by
  have hrun : Rest.serve X ops checks state request s.cache s.world.store
      = .ok (Rest.buildHead (Rest.headHeaders m), s.cache) s.world.store := by
    rw [serve_reaches hreaches (by decide)]
    refine (answering_ok Rest.internalError _ (a := some m) ?_ s.cache).trans rfl
    exact congrArg (EStateM.Result.ok · s.world.store) h.manifest
  constructor
  · rintro ⟨reply, cache, s', hreply, hdescribes⟩
    cases hrun.symm.trans hreply
    cases hbuilt : Rest.buildHead (Rest.headHeaders m) with
    | head headers =>
      refine ⟨(valid_of_buildHead hbuilt (p := ("content-type", m.contentType)) ?_).2, fun p hp => ?_⟩
      · simp [Rest.headHeaders]
      · have hvalid := valid_of_buildHead hbuilt (p := ("X-KaidaDB-Meta-" ++ p.1, p.2)) (by
          simp only [Rest.headHeaders, List.mem_append, List.mem_map]
          exact .inr ⟨p, hp, rfl⟩)
        rwa [isHeaderName_meta] at hvalid
    | _ => rw [hbuilt] at hdescribes; exact hdescribes.elim
  · rintro ⟨htype, hmetadata⟩
    refine ⟨_, _, _, hrun, ?_⟩
    rw [buildHead_valid]
    · refine ⟨rfl, ?_, fun p hp => ?_⟩
      · rw [← h.describes.total]
        rfl
      · simp only [Rest.headHeaders, List.mem_append, List.mem_map]
        exact .inr ⟨p, hp, rfl⟩
    · have hnames : ∀ name ∈ ["content-type", "content-length", "accept-ranges", "X-KaidaDB-Checksum",
          "X-KaidaDB-Chunk-Count"], isHeaderName name = true := by decide
      intro p hp
      rw [Rest.headHeaders, List.mem_append] at hp
      rcases hp with hfixed | hmeta
      · simp only [List.mem_cons, List.not_mem_nil, or_false] at hfixed
        rcases hfixed with rfl | rfl | rfl | rfl | rfl
        · exact ⟨hnames _ (by simp), htype⟩
        · exact ⟨hnames _ (by simp), isHeaderValue_number _⟩
        · exact ⟨hnames _ (by simp), by decide⟩
        · exact ⟨hnames _ (by simp), h.describes.checksum ▸ isHeaderValue_hex _⟩
        · exact ⟨hnames _ (by simp), isHeaderValue_number _⟩
      · obtain ⟨q, hq, rfl⟩ := List.mem_map.1 hmeta
        exact ⟨isHeaderName_meta q.1 ▸ (hmetadata q hq).1, (hmetadata q hq).2⟩

variable (ops) in
/-- **GET requests**: the object is sent, if its content type can stand in a header. -/
theorem get_iff {D : Set Bytes} (hinj : Set.InjOn X.sha256 D) {s : Server} {key : String}
    {m : MediaManifest} {d : Bytes} (h : s.Serves X D key m d) (h64 : d.length < 2 ^ 64) (checks : Bool)
    {state : AppState} {request : RestRequest} (hreaches : request.Reaches X state .get (.getMedia key))
    (hwhole : ∀ p ∈ request.headers, p.1 ≠ "range") :
    (∃ reply cache s', Rest.serve X ops checks state request s.cache s.world.store
        = .ok (reply, cache) s' ∧ reply.IsObject m.contentType d) ↔
      isHeaderValue m.contentType = true := by
  let get : GetMedia := ⟨"/" ++ key, request.headers⟩
  have hm : s.world.store.view.index.manifests[normalizeKey get.rawKey]? = some m :=
    (congrArg (s.world.store.view.index.manifests[·]?) (normalizeKey_slash key)).trans h.manifest
  have hrange : get.range = none := by
    rw [GetMedia.range, List.find?_eq_none.2 fun p hp => by simpa using hwhole p hp]
    rfl
  have hparse : parseRangeHeader get.range m.totalSize = (0, 0, false) := by
    rw [hrange, parseRangeHeader]
    split_ifs <;> rfl
  have htotal := h.describes.total
  obtain ⟨parts, panic, cache', hget, hparts⟩ : ∃ parts panic cache',
      Does (lens X true) (getMedia X checks get s.cache) s.world.store.view
        (.ok ⟨expectedResponse m 0 0 false parts, panic, cache'⟩) s.world.store.view ∧
      parts.flatten = d := by
    obtain hzero | hpos := Nat.eq_zero_or_pos d.length
    · have hd : d = [] := List.eq_nil_of_length_eq_zero hzero
      have hchunks : m.chunks = [] := by
        rw [h.describes.chunks, hd]
        rfl
      exact ⟨[], _, _, does_getMedia_empty hm h.describes.size (htotal.trans hzero) hchunks checks s.cache,
        hd.symm⟩
    · obtain ⟨parts, cache', hget, hparts⟩ :=
        does_getMedia hm hinj h.describes h.readable hpos h64 checks h.cached hparse
      refine ⟨parts, none, cache', hget, ?_⟩
      rw [hparts, range, if_pos rfl, List.take_length, List.drop_zero]
  obtain ⟨s1, hrun, -⟩ := hget s.world.store h.healthy rfl
  have hserve : Rest.serve X ops checks state request s.cache s.world.store
      = .ok (.media ⟨expectedResponse m 0 0 false parts, panic, cache'⟩, cache') s1 := by
    rw [serve_reaches hreaches (by decide), Rest.handle]
    show (getMedia X checks get s.cache >>= _) s.world.store = _
    rw [run_bind, hrun]
    rfl
  constructor
  · rintro ⟨reply, cache, s', hreply, hobject⟩
    cases hserve.symm.trans hreply
    by_contra htype
    obtain ⟨headers, body, hresponse, -⟩ := hobject
    rw [expectedResponse, if_neg htype] at hresponse
    cases hresponse
  · intro htype
    refine ⟨_, _, _, hserve, ?_⟩
    rw [expectedResponse, if_pos htype]
    exact ⟨_, parts, rfl, hparts, rfl, htotal ▸ rfl⟩

/-- **What was stored over gRPC is served over REST** exactly if its content type and the metadata can stand
in headers. -/
theorem served_iff (hX : X.Lawful) (ops : DashOps) (u : GrpcUpload X ops)
    (hfree : CollisionFree X u.engine u.calls) (h64 : u.data.length < 2 ^ 64) (checks : Bool) (state : AppState)
    (get head : RestRequest) (hget : get.Reaches X state .get (.getMedia u.key))
    (hwhole : ∀ p ∈ get.headers, p.1 ≠ "range")
    (hhead : head.Reaches X state .head (.headMedia u.key)) :
    let serve := fun request =>
      Rest.serve X ops checks state request u.server.cache u.server.world.store
    ((∃ reply cache s', serve get = .ok (reply, cache) s' ∧ reply.IsObject u.contentType u.data) ∧
      ∃ reply cache s', serve head = .ok (reply, cache) s' ∧
        reply.DescribesObject u.contentType u.metadata u.data) ↔
    isHeaderValue u.contentType = true ∧ HeaderMetadata u.metadata := by
  intro serve
  obtain ⟨m, hserves, htype, hmetadata⟩ := u.serves hX hfree
  rw [← htype, ← hmetadata]
  have hgets := get_iff ops hfree hserves h64 checks hget hwhole
  have hheads := head_iff ops hserves checks hhead
  constructor
  · exact fun h => hheads.1 h.2
  · exact fun h => ⟨hgets.2 h.1, hheads.2 h⟩

end

/-! ## A small upload -/

/-- A server on this host. -/
def localState : AppState := ⟨⟨2, 0, false⟩, ⟨⟨"streams/"⟩, 6, "", true⟩, ""⟩

def localClient : Client := ⟨some ⟨.v4 127 0 0 1, 1⟩, []⟩

/-- An upload of two chunks to a new server. -/
def smallUpload (contentType : String) :=
  let s := Server.start ⟨2, 0, false⟩ "data" 100
  Grpc.serve .reference exactSeconds localState localClient
    (.storeMedia [some (.header "movie" contentType []), some (.chunkData [1, 4]), some (.chunkData [1, 5])]
      .clean) s.cache s.world.store

/-- The upload has been done. -/
def reportedStored : EStateM.Result Fail Store (Except Status GrpcReply × ChunkCache) → Bool
  | .ok (.ok (.stored _), _) _ => true
  | _ => false

theorem exists_upload {contentType : String} (h : reportedStored (smallUpload contentType) = true) :
    ∃ u : GrpcUpload .reference exactSeconds, u.key = "movie" ∧ u.contentType = contentType ∧
      u.metadata = [] ∧ u.data = [1, 4, 1, 5] ∧ CollisionFree .reference u.engine u.calls := by
  rcases hrun : smallUpload contentType with ⟨⟨⟨⟩ | reply, cache⟩, s⟩ | ⟨e, s⟩
  · rw [hrun] at h
    cases h
  · cases reply with
    | stored response =>
      have hcache : cache = (Server.start ⟨2, 0, false⟩ "data" 100).cache :=
        (@serve_stored _ exactSeconds _ _ _ _ _ _ _ _ _ hrun).1
      subst hcache
      refine ⟨⟨⟨2, 0, false⟩, "data", 100, [], localState, localClient, "movie", contentType, [],
        [some (.chunkData [1, 4]), some (.chunkData [1, 5])], .clean, response, s, [], by decide, nofun, nofun, rfl,
        hrun, rfl⟩, rfl, rfl, rfl, rfl, ?_⟩
      exact @reference_free [[1, 4, 1, 5]] (by decide)
    | _ =>
      rw [hrun] at h
      cases h
  · rw [hrun] at h
    cases h

/-- A request of this host for the object. -/
def localRequest (method : Method) : RestRequest where
  toClient := localClient
  method := method
  path := mediaPath "movie"
  query := .ok ⟨none, none, none⟩
  renameRequest := .error (415, "")
  frames := []
  ending := .clean

theorem localRequest_get :
    (localRequest .get).Reaches .reference localState .get (.getMedia "movie") :=
  ⟨rfl, (route_mediaPath "movie").1, passes_loopback rfl rfl⟩

theorem localRequest_head :
    (localRequest .head).Reaches .reference localState .head (.headMedia "movie") :=
  ⟨rfl, (route_mediaPath "movie").2, passes_loopback rfl rfl⟩

theorem served_iff_typed : ∃ u : GrpcUpload .reference exactSeconds, u.contentType = "video/mp4" ∧
    let serve := fun request => Rest.serve .reference exactSeconds false localState request
      u.server.cache u.server.world.store
    (((∃ reply cache s', serve (localRequest .get) = .ok (reply, cache) s' ∧
        reply.IsObject u.contentType u.data) ∧
      ∃ reply cache s', serve (localRequest .head) = .ok (reply, cache) s' ∧
        reply.DescribesObject u.contentType u.metadata u.data) ↔
      isHeaderValue u.contentType = true ∧ HeaderMetadata u.metadata) := by
  obtain ⟨u, hkey, htype, hmetadata, hdata, hfree⟩ :=
    @exists_upload "video/mp4" (by decide +kernel)
  refine ⟨u, htype, served_iff Crates.reference_lawful exactSeconds u hfree (by rw [hdata]; decide) false
    localState _ _ (hkey ▸ localRequest_get) nofun (hkey ▸ localRequest_head)⟩

/-- The object whose content type has a line break is answered with 500. -/
theorem stored_not_served :
    ¬ ∀ (X : Crates) (ops : DashOps) (u : GrpcUpload X ops), X.Lawful → CollisionFree X u.engine u.calls →
      u.data.length < 2 ^ 64 → ∀ (state : AppState) (get : RestRequest),
      get.Reaches X state .get (.getMedia u.key) → (∀ p ∈ get.headers, p.1 ≠ "range") →
      ∃ reply cache s', Rest.serve X ops false state get u.server.cache u.server.world.store
        = .ok (reply, cache) s' ∧ reply.IsObject u.contentType u.data := by
  intro h
  obtain ⟨u, hkey, htype, -, hdata, hfree⟩ :=
    @exists_upload "video\n" (by decide +kernel)
  have hsmall : u.data.length < 2 ^ 64 := by
    rw [hdata]
    decide
  have hget : (localRequest .get).Reaches .reference localState .get (.getMedia u.key) :=
    hkey ▸ localRequest_get
  obtain ⟨m, hserves, hsame, -⟩ := u.serves Crates.reference_lawful hfree
  have hvalid := (get_iff exactSeconds hfree hserves hsmall false hget nofun).1
    (hsame ▸ h .reference exactSeconds u Crates.reference_lawful hfree hsmall localState _ hget nofun)
  rw [hsame, htype] at hvalid
  exact absurd hvalid (by decide)

end KaidaDB
