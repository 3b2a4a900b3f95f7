import KaidaDB.Api.Damage
import KaidaDB.Api.Proof.Process
import KaidaDB.Storage.Proof.Worn

/-!
# Damage cuts downloads short

A process on damaged chunk files is `Weathered`: on other files under the names in `B` it would be `Serving`,
and its own are not taken for chunks that they are not. What changes objects does to it what it does to that
process, and a download sends the parts of the object up to the first chunk that cannot be read. So every
request is answered as on objects but for downloads, which may be cut short (`damage_cuts_downloads_short`);
those of objects whose chunk files are all as they were are not (`undamaged_objects_come_back`).
-/

namespace KaidaDB

open Std Effects

variable {X : Crates} {D : Set Bytes} {B : Set String} {s t : Store}

/-! ## Changes on worn files -/

namespace Worn

theorem uploadLoop : ∀ (frames : List Bytes) {session : StoreSession} {s t : Store}, Worn X D B s t →
    session.Expects D frames.flatten →
    Worn.Session X D B (StoreSession.Expects D []) (KaidaDB.uploadLoop X (frames.map some ++ [none]))
      (session, s) (session, t)
  | [], _, _, _, h, hfed => h.session_pure hfed
  | frame :: frames, session, s, t, h, hfed => by
    refine session_bind (Alike.tryCatch (h.write hfed) fun e p q hboth => ?_) fun _ session s t hfed h =>
      uploadLoop frames h hfed
    obtain ⟨session, s⟩ := p
    obtain ⟨session', t⟩ := q
    obtain ⟨hsession, -, h⟩ := hboth
    obtain rfl : session = session' := hsession
    cases e with
    | error e => exact session_bind h.abort fun _ session s t _ h => Alike.throw ⟨rfl, trivial, h⟩
    | panic message => exact Alike.throw ⟨rfl, trivial, h⟩
    | diverges => exact Alike.throw ⟨rfl, trivial, h⟩

variable (h : Worn X D B s t)
include h

theorem uploadWorker (engine : StorageEngine) (job : Upload.Job) (ending : Ending)
    (hD : ∀ q, q <:+: job.frames.flatten → q ∈ D) :
    Worn.Same X D B (KaidaDB.uploadWorker X engine job ending) s t := by
  unfold KaidaDB.uploadWorker
  rw [received_eq]
  refine Alike.bind (h.beginStore engine _ _ _) fun session s t hnew => ?_
  obtain ⟨⟨hbuf, hsize⟩, h⟩ := hnew
  have hfed : session.Expects D job.frames.flatten :=
    ⟨hsize, by rw [hbuf]; exact Nat.zero_le _, by rw [hbuf]; exact hD⟩
  exact withSession (session_bind (uploadLoop job.frames h hfed) fun _ session s t hfed h => h.finish hfed)

theorem deletePage (manifests : List MediaManifest) (counts : Nat × Nat) :
    Worn.Same X D B (KaidaDB.deletePage X manifests counts) s t := by
  induction manifests generalizing counts s t with
  | nil => exact Alike.pure h
  | cons m manifests ih => exact Alike.bind (h.delete m.key) fun _ _ _ h => ih h _

theorem deletePages (keyPrefix : String) (pages : Nat) (cursor : String) (counts : Nat × Nat) :
    Worn.Same X D B (KaidaDB.deletePages X keyPrefix pages cursor counts) s t := by
  induction pages generalizing cursor counts s t with
  | zero => exact Alike.throw h
  | succ pages ih =>
    refine Alike.bind (h.listManifests keyPrefix 1000 cursor) fun page s t h => ?_
    obtain ⟨manifests, nextCursor⟩ := page
    dsimp only
    split_ifs
    · exact Alike.pure h
    · refine Alike.bind (h.deletePage manifests counts) fun counts' s t h => ?_
      cases nextCursor with
      | none => exact Alike.pure h
      | some c => exact ih h c counts'

/-- A chunk that can be read is the one that is asked for. -/
theorem reads_chunk (id : ChunkId) : Reads (Genuine X D id) (BlobStore.readChunk X id) t :=
  reads_file fun f data hf hdata => h.honest id f data hf hdata

end Worn

/-! ## Parts -/

section
variable (hinj : Set.InjOn X.sha256 D)
include hinj

theorem Genuine.eq {p data : Bytes} (h : Genuine X D (ChunkId.fromData X p) data) (hp : p ∈ D) :
    data = p := hinj h.1 hp (congrArg ChunkId.bytes h.2.symm)

variable (hread : ∀ id, Reads (Genuine X D id) (BlobStore.readChunk X id) t) {pieces : List Bytes}
  (hD : ∀ p ∈ pieces, p ∈ D) {m : MediaManifest}
include hread hD

theorem sendBody_cut {offset stop : Nat} (hn : 0 < m.chunkSize) (hlt : offset < stop)
    (hchunks : m.chunks = pieces.map (ChunkId.fromData X)) (checks : Bool) (count : Nat) {idx : Nat}
    {parts : List Bytes} (hfirst : m.startChunkIdx offset ≤ idx)
    (hlast : idx + count = m.endChunkIdx stop + 1) (hlen : m.endChunkIdx stop < pieces.length)
    (hcuts : Cuts m offset stop idx ((pieces.drop idx).take count) parts)
    {cache : ChunkCache} (hcache : Cached X D cache) :
    Returns (fun r => Cut (r.2.1 ≠ none) r.1 parts) (sendBody X checks m offset stop
      (m.startChunkIdx offset) (m.endChunkIdx stop) count idx cache) t := by
  induction count generalizing idx parts cache with
  | zero =>
    rw [List.take_zero] at hcuts
    cases hcuts
    exact Returns.pure .nil
  | succ count ih =>
    have hidx : idx < pieces.length := by omega
    have hmem := List.getElem_mem hidx
    rw [List.drop_eq_getElem_cons hidx, List.take_succ_cons] at hcuts
    cases hcuts with
    | cons hpart h =>
      rw [sendBody, hchunks, chunkAt_ok hidx]
      refine Returns.bind (returns_cachedChunk hread hcache _) fun r hr => ?_
      obtain ⟨found, cache1⟩ := r
      rcases found with (e | message | _) | data
      · exact Returns.pure (.error _ _ _)
      · exact Returns.pure (.broken (Option.some_ne_none _) _ _)
      · exact Returns.pure (.broken (Option.some_ne_none _) _ _)
      · rw [(hr.genuine data rfl).eq hinj (hD _ hmem)]
        dsimp only
        rw [cutChunk_eq hn hlt checks hfirst (by omega), hpart]
        exact Returns.bind (ih (show m.startChunkIdx offset ≤ idx + 1 by omega) (by omega) h hr.cached)
          fun r hr => Returns.pure (.cons _ hr)

theorem sendChunks_cut {offset stop last : Nat} (k idx sequence currentOffset : Nat)
    {parts : List Bytes} {cache : ChunkCache} (hcache : Cached X D cache) (hk : idx + k = last + 1)
    (hcount : k ≤ pieces.length) (hcuts : Cuts m offset stop idx (pieces.take k) parts) :
    Returns (fun r => Cut True r.1 (frames sequence currentOffset parts)) (sendChunks X m offset stop last
      idx sequence currentOffset (pieces.map (ChunkId.fromData X)) cache) t := by
  induction k generalizing idx sequence currentOffset pieces parts cache with
  | zero =>
    rw [List.take_zero] at hcuts
    cases hcuts
    cases pieces with
    | nil => exact Returns.pure .nil
    | cons p ps =>
      rw [List.map_cons, sendChunks, if_pos (by omega)]
      exact Returns.pure .nil
  | succ k ih =>
    cases pieces with
    | nil => exact absurd hcount (Nat.not_succ_le_zero k)
    | cons p ps =>
      rw [List.take_succ_cons] at hcuts
      cases hcuts with
      | @cons _ _ part _ rest hpart h =>
        have hps : k ≤ ps.length := Nat.le_of_succ_le_succ hcount
        rw [List.map_cons, sendChunks, if_neg (by omega)]
        refine Returns.bind (returns_cachedChunk hread hcache _) fun r hr => ?_
        obtain ⟨found, cache1⟩ := r
        rcases found with (e | message | _) | data
        · exact Returns.pure (.error _ _ _)
        · exact Returns.pure (.broken trivial _ _)
        · exact Returns.pure (.broken trivial _ _)
        · rw [(hr.genuine data rfl).eq hinj (hD p List.mem_cons_self)]
          dsimp only
          rw [hpart]
          refine Returns.bind (ih (fun q hq => hD q (List.mem_cons_of_mem _ hq)) (idx + 1) _ _ hr.cached
            (by omega) hps h) fun r hr => ?_
          rw [Cuts.isLast h hps hk]
          exact Returns.pure (.cons _ hr)

omit hinj hD in
/-- Where the end of a range has wrapped to before its start, at most the error of its first chunk is sent. -/
theorem sendChunks_wrapped {offset stop last idx : Nat} (hn : 0 < m.chunkSize) (hpos : 0 < stop)
    (hstop : stop < offset) (hidx : idx = m.startChunkIdx offset) (hlast : last ≤ m.endChunkIdx stop)
    {cache : ChunkCache} (hcache : Cached X D cache) :
    Returns (fun r => r.1 = [] ∨ ∃ status, r.1 = [.error status]) (sendChunks X m offset stop last idx 0 offset
      (pieces.map (ChunkId.fromData X)) cache) t := by
  cases pieces with
  | nil => exact Returns.pure (.inl rfl)
  | cons p ps =>
    rw [List.map_cons, sendChunks]
    by_cases hbefore : last < idx
    · rw [if_pos hbefore]
      exact Returns.pure (.inl rfl)
    rw [if_neg hbefore]
    refine Returns.bind (returns_cachedChunk hread hcache _) fun r hr => ?_
    obtain ⟨found, cache1⟩ := r
    rcases found with (e | message | _) | data
    · exact Returns.pure (.inr ⟨_, rfl⟩)
    · exact Returns.pure (.inl rfl)
    · exact Returns.pure (.inl rfl)
    · obtain ⟨message, hpart⟩ := chunkPart_refused hn hpos hstop hidx (show idx ≤ _ by omega) data
      dsimp only
      rw [hpart]
      exact Returns.pure (.inl rfl)

end

/-! ## Downloads -/

section
variable {o : StoredObject} {request : GetMedia} {cache : ChunkCache}

theorem ApiReply.Plain.cutShort {reply : ApiReply} (h : reply.Plain) : reply.CutShort reply := by
  cases reply with
  | rest reply => cases reply <;> first | exact h.elim | rfl
  | grpc reply =>
    cases reply with
    | error status => rfl
    | ok reply => cases reply <;> first | exact h.elim | rfl
  | panicked e => rfl

/-- A body that is cut short makes a response that is. -/
theorem download_cutShort {rangeHeader : Option Bytes} {offset length : Nat} {isRange : Bool}
    (hparse : parseRangeHeader rangeHeader o.data.length = (offset, length, isRange))
    (htype : isHeaderValue o.contentType = true) {body : List (Except String Bytes)} {panic : Option Fail}
    {parts : List Bytes} (hcut : Cut (panic ≠ none) body parts)
    (hparts : parts.flatten = range o.data offset length) (cache' : ChunkCache) :
    Download.CutShort ⟨.stream (if isRange then 206 else 200)
      ([("content-type", o.contentType), ("accept-ranges", "bytes")] ++
        if isRange then [("content-length", toString length),
          ("content-range", s!"bytes {offset}-{offset + length - 1}/{o.data.length}")]
        else [("content-length", toString o.data.length)]) body, panic, cache⟩
      ⟨o.download rangeHeader, none, cache'⟩ := by
  unfold StoredObject.download
  rw [if_pos htype, hparse]
  cases isRange with
  | true => exact ⟨rfl, rfl, parts, hparts.trans (o.part_eq _ _), hcut⟩
  | false =>
    obtain ⟨rfl, rfl⟩ := parseRangeHeader_whole hparse
    exact ⟨rfl, rfl, parts, hparts.trans (o.part_eq _ _), hcut⟩

/-- The last step of a download. -/
theorem reads_respond {rangeHeader : Option Bytes} {offset length : Nat} {isRange : Bool}
    (hparse : parseRangeHeader rangeHeader o.data.length = (offset, length, isRange))
    {body : List (Except String Bytes)} {panic : Option Fail} {parts : List Bytes}
    (hcut : Cut (panic ≠ none) body parts) (hparts : parts.flatten = range o.data offset length)
    (cache' : ChunkCache) :
    Reads (fun got => Download.CutShort got ⟨o.download rangeHeader, none, cache'⟩)
      (if isHeaderValue o.contentType then pure ⟨.stream (if isRange then 206 else 200)
        ([("content-type", o.contentType), ("accept-ranges", "bytes")] ++
          if isRange then [("content-length", toString length),
            ("content-range", s!"bytes {offset}-{offset + length - 1}/{o.data.length}")]
          else [("content-length", toString o.data.length)]) body, panic, cache⟩
        else pure ⟨.text 500 "failed to parse header value", panic, cache⟩ : M Download) t := by
  by_cases htype : isHeaderValue o.contentType = true
  · rw [if_pos htype]
    exact Reads.pure (download_cutShort hparse htype hcut hparts cache')
  · rw [if_neg htype, StoredObject.download, if_neg htype]
    exact Reads.pure rfl

variable (hinj : Set.InjOn X.sha256 D)
  (hread : ∀ id, Reads (Genuine X D id) (BlobStore.readChunk X id) t) (hcache : Cached X D cache)
  (hknown : o.Known D)
include hinj hread hcache hknown

section
variable (hm : t.index.manifests[normalizeKey request.rawKey]?
  = some (o.manifest X (normalizeKey request.rawKey))) (checks : Bool) (cache' : ChunkCache)
include hm

omit hinj in
/-- The task of an empty object fails before it sends anything. -/
theorem getMedia_cut_empty (hempty : o.data = []) :
    Reads (fun got => Download.CutShort got ⟨o.download request.range, none, cache'⟩)
      (getMedia X checks request cache) t := by
  have htotal : (o.manifest X (normalizeKey request.rawKey)).totalSize = 0 := by
    simp [StoredObject.manifest, hempty]
  have hchunks : (o.manifest X (normalizeKey request.rawKey)).chunks = [] := by
    simp [StoredObject.manifest, hempty]
  have hparse : parseRangeHeader request.range (o.manifest X (normalizeKey request.rawKey)).totalSize
      = (0, 0, false) := by rw [parseRangeHeader, if_pos htotal]
  refine Reads.bind (reads_getManifest _) fun found hfound => ?_
  rw [hm] at hfound
  subst hfound
  dsimp only
  rw [hparse]
  dsimp only
  rw [rangeStop, if_pos rfl, htotal, hchunks]
  refine Reads.bind (P := (· = 0)) (Reads.pure rfl) fun stop hstop => ?_
  subst hstop
  rw [if_neg (show (o.manifest X (normalizeKey request.rawKey)).chunkSize ≠ 0 from hknown.size.ne'), lastIdx,
    if_pos rfl, Nat.zero_div]
  refine Reads.bind (P := (· = 0)) (Reads.pure rfl) fun last hlast => ?_
  subst hlast
  refine Reads.bind (reads_prefetch hread hcache _ _ _) fun cache1 _ => ?_
  have hsend : Reads (· = ([], some (.panic "index out of bounds: the len is 0 but the index is 0"), cache1))
      (sendBody X checks (o.manifest X (normalizeKey request.rawKey)) 0 0 0 0 1 0 cache1) t := by
    rw [sendBody, hchunks]
    exact Reads.pure rfl
  refine Reads.bind hsend fun sent hsent => ?_
  subst hsent
  dsimp only
  rw [downloadHeaders, if_neg (by decide)]
  refine Reads.bind (P := (· = _)) (Reads.pure rfl) fun headers hheaders => ?_
  subst hheaders
  exact reads_respond hparse .nil (by rw [hempty]; rfl) cache'

theorem getMedia_cut_parts (hpos : 0 < o.data.length) :
    Reads (fun got => Download.CutShort got ⟨o.download request.range, none, cache'⟩)
      (getMedia X checks request cache) t := by
  have hd := hknown.describes (X := X) (normalizeKey request.rawKey)
  obtain ⟨⟨offset, length, isRange⟩, hparse⟩ : ∃ r, parseRangeHeader request.range
      (o.manifest X (normalizeKey request.rawKey)).totalSize = r := ⟨_, rfl⟩
  obtain ⟨stop, k, parts, hplan⟩ := hd.plan hpos hknown.length checks hparse
  refine Reads.bind (reads_getManifest _) fun found hfound => ?_
  rw [hm] at hfound
  subst hfound
  dsimp only
  rw [hparse]
  dsimp only
  rw [hplan.ends]
  refine Reads.bind (P := (· = stop)) (Reads.pure rfl) fun stop' hstop => ?_
  subst hstop
  rw [if_neg hd.size.ne', hplan.last]
  refine Reads.bind (P := (· = _)) (Reads.pure rfl) fun last hlast => ?_
  subst hlast
  refine Reads.bind (reads_prefetch hread hcache _ _ _) fun cache1 hcache1 => ?_
  rw [show offset / (o.manifest X (normalizeKey request.rawKey)).chunkSize
    = (o.manifest X (normalizeKey request.rawKey)).startChunkIdx offset from rfl, hplan.sent]
  refine Reads.bind (sendBody_cut hinj hread hd.known hd.size hplan.nonempty hd.chunks checks k
    (Nat.le_refl _) hplan.count (by rw [← hd.length_chunks]; exact hplan.inside) hplan.cuts
    hcache1).reads fun sent hsent => ?_
  obtain ⟨body, panic, cache2⟩ := sent
  dsimp only
  rw [hplan.headers]
  refine Reads.bind (P := (· = _)) (Reads.pure rfl) fun headers hheaders => ?_
  subst hheaders
  exact reads_respond hparse hsent hplan.whole cache'

/-- **A download over REST** of an object. -/
theorem getMedia_cut :
    Reads (fun got => Download.CutShort got ⟨o.download request.range, none, cache'⟩)
      (getMedia X checks request cache) t := by
  obtain hzero | hpos := Nat.eq_zero_or_pos o.data.length
  · exact getMedia_cut_empty hread hcache hknown hm checks cache' (List.eq_nil_of_length_eq_zero hzero)
  · exact getMedia_cut_parts hinj hread hcache hknown hm checks cache' hpos

end

/-- **A range over gRPC** of an object. -/
theorem streamMedia_cut {key : String} (hm : t.index.manifests[key]? = some (o.manifest X key))
    {offset length : Nat} (hoffset : offset < 2 ^ 64) (hlength : length < 2 ^ 64) :
    Returns (fun r => ∃ sent, r.1 = .ok sent ∧
        GrpcReply.CutShort (.chunks sent) (.chunks ((o.messages offset length).map .ok)))
      (streamMedia X ⟨.ok (), key, offset, length⟩ cache) t := by
  have hd := hknown.describes (X := X) key
  have hparts := hknown.sentParts (X := X) key hoffset hlength
  have hcount := hd.length_chunks
  have hsize := hd.size
  have hdropped : ∀ p ∈ (Slices.slices (o.manifest X key).chunkSize o.data).drop
      ((o.manifest X key).startChunkIdx offset), p ∈ D := fun p hp => hd.known p (List.mem_of_mem_drop hp)
  rw [StoredObject.messages]
  generalize o.pieces offset length = parts at hparts
  refine Returns.bind (P := (· = some (o.manifest X key))) ⟨_, rfl, hm⟩ fun found hfound => ?_
  subst hfound
  dsimp only
  by_cases hoff : o.data.length ≤ offset
  · cases hparts with
    | outside =>
      rw [if_pos (by rw [hd.total]; exact hoff)]
      exact Returns.pure ⟨[], rfl, .inl ⟨[], rfl, .nil⟩⟩
    | wrapped hin => exact absurd hoff (Nat.not_le_of_lt hin)
    | inside hin => exact absurd hoff (Nat.not_le_of_lt hin)
  have hpos : 0 < (o.manifest X key).chunks.length := by
    rw [hcount, Slices.lt_length_slices hsize]
    omega
  rw [if_neg (by rw [hd.total]; exact hoff), if_neg (by omega), wrappingSub_le (by omega), hd.drop_chunks,
    ← Slices.drop_slices hsize]
  cases hparts with
  | outside hout => exact absurd hout hoff
  | wrapped _ hpos hstop =>
    refine Returns.bind (sendChunks_wrapped hread hsize hpos hstop rfl (Nat.min_le_left _ _)
      hcache) fun r hr => Returns.pure ⟨_, rfl, ?_⟩
    rcases hr with hnone | herror
    · exact .inl ⟨[], rfl, hnone ▸ .nil⟩
    · exact .inr ⟨rfl, herror⟩
  | @inside k _ hin hk hle hcuts =>
    exact Returns.bind (sendChunks_cut hinj hread hdropped k _ 0 offset hcache hk
      (by rw [List.length_drop]; omega) hcuts) fun r hr => Returns.pure ⟨_, rfl, .inl ⟨_, rfl, hr⟩⟩

end

/-! ## Processes on damaged files -/

/-- What the process is on other chunk files (module doc). -/
def Weathered (X : Crates) (D : Set Bytes) (B : Set String) (p : Process) (s : Service) : Prop :=
  ∃ u, Serving X D { p with store := u } s ∧ Worn X D B u p.store

section
variable {p : Process} {s s' : Service}

/-- What is done to the objects of the one process is done to those of the other. -/
theorem Weathered.carry {u : Store} {α : Type} {x : M α} {r : Except Fail α}
    (hserving : ∃ st, x u = result r st ∧ Serving X D { p with store := st } s')
    (hsame : Worn.Same X D B x u p.store) :
    ∃ st, x p.store = result r st ∧ Weathered X D B { p with store := st } s' := by
  obtain ⟨st, hrun, hst⟩ := hserving
  obtain ⟨st', hrun', hworn⟩ := hsame.result hrun
  exact ⟨st', hrun', st, hst, hworn⟩

theorem Weathered.getMedia (hinj : Set.InjOn X.sha256 D) (h : Weathered X D B p s) (checks : Bool)
    (request : GetMedia) :
    Replied (Weathered X D B) ApiReply.CutShort .rest p (fun cache => do
        let download ← KaidaDB.getMedia X checks request cache
        return (.media download, download.cache))
      (s, .media ⟨match s.objects[normalizeKey request.rawKey]? with
        | some o => o.download request.range
        | none => .text 404 "not found", none, .new 0⟩) := by
  obtain ⟨u, h, hworn⟩ := h
  have hm := h.manifests (normalizeKey request.rawKey)
  have hcached := reads_getMedia hworn.reads_chunk h.cached checks request
  have hcut : Reads (fun got => Download.CutShort got ⟨match s.objects[normalizeKey request.rawKey]? with
      | some o => o.download request.range
      | none => .text 404 "not found", none, .new 0⟩) (KaidaDB.getMedia X checks request p.cache) p.store := by
    cases ho : s.objects[normalizeKey request.rawKey]? with
    | none =>
      rw [ho] at hm
      refine Reads.bind (reads_getManifest _) fun found hfound => ?_
      rw [hworn.index] at hfound
      cases hfound.trans hm
      exact Reads.pure rfl
    | some o =>
      rw [ho] at hm
      exact getMedia_cut hinj hworn.reads_chunk h.cached (h.known _ o ho) (by rw [hworn.index]; exact hm)
        checks _
  obtain ⟨r, hrun, hr⟩ := hcut
  rw [Replied]
  dsimp only
  rw [run_bind, hrun]
  cases r with
  | error e => exact ⟨trivial, u, h, hworn⟩
  | ok download =>
    obtain ⟨-, hcache⟩ := hcached.of_ok hrun
    exact ⟨hr download rfl, u, h.setCache hcache, hworn⟩

theorem Weathered.streamMedia (hinj : Set.InjOn X.sha256 D) (h : Weathered X D B p s) (key : String)
    (offset length : Nat) (hoffset : offset < 2 ^ 64) (hlength : length < 2 ^ 64) :
    Replied (Weathered X D B) ApiReply.CutShort .grpc p
      (GrpcReply.chunks <$> ExceptT.mk (KaidaDB.streamMedia X ⟨.ok (), key, offset, length⟩) :
        Handler GrpcReply)
      (s, match s.objects[key]? with
        | some o => .ok (.chunks ((o.messages offset length).map .ok))
        | none => .error (.mk .notFound s!"key not found: {key}")) := by
  obtain ⟨u, h, hworn⟩ := h
  have hm := h.manifests key
  have hcached := reads_streamMedia hworn.reads_chunk h.cached ⟨.ok (), key, offset, length⟩
  have hreply : ∀ {r cache}, KaidaDB.streamMedia X ⟨.ok (), key, offset, length⟩ p.cache p.store
      = .ok (r, cache) p.store → _ := fun hrun => run_map_handler
        (x := ExceptT.mk (KaidaDB.streamMedia X ⟨.ok (), key, offset, length⟩)) hrun GrpcReply.chunks
  cases ho : s.objects[key]? with
  | none =>
    rw [ho] at hm
    have hmissing : Returns (· = (.error (.mk .notFound s!"key not found: {key}"), p.cache))
        (KaidaDB.streamMedia X ⟨.ok (), key, offset, length⟩ p.cache) p.store := by
      refine Returns.bind (P := (· = none)) ⟨_, rfl, by rw [hworn.index]; exact hm⟩ fun found hfound => ?_
      subst hfound
      exact Returns.pure rfl
    obtain ⟨_, hrun, rfl⟩ := hmissing
    rw [Replied, hreply hrun]
    exact ⟨rfl, u, h, hworn⟩
  | some o =>
    rw [ho] at hm
    obtain ⟨⟨r, cache⟩, hrun, sent, hr, hcut⟩ := streamMedia_cut hinj hworn.reads_chunk h.cached
      (h.known _ o ho) (by rw [hworn.index]; exact hm) hoffset hlength
    obtain ⟨-, hcache⟩ := hcached.of_ok hrun
    cases hr
    rw [Replied, hreply hrun]
    exact ⟨hcut, u, h.setCache hcache, hworn⟩

section
variable (hinj : Set.InjOn X.sha256 D) {key : String} {o : StoredObject} (h : Weathered X D B p s)
  (ho : s.objects[key]? = some o)
  (hspared : ∀ piece ∈ Slices.slices o.chunkSize o.data, (ChunkId.fromData X piece).toHex ∉ B)
include hinj h ho hspared

/-- What of an object is not damaged can be read. -/
theorem Weathered.readable : Readable X true p.store.view (Slices.slices o.chunkSize o.data) := by
  obtain ⟨u, h, hworn⟩ := h
  intro piece hpiece
  obtain ⟨st, hrun, -⟩ := h.readable hinj ho piece hpiece u h.healthy rfl
  obtain ⟨f, hf, hdec⟩ := readChunk_file hrun
  rw [← hworn.spared _ (hspared piece hpiece)] at hf
  refine Does.get_bind fun st _ hv => ?_
  rw [show st.files = p.store.files from congrArg View.files hv, hf]
  simp only [hdec]
  exact Does.pure piece

theorem Weathered.download (checks : Bool) (request : GetMedia) (hkey : normalizeKey request.rawKey = key) :
    ∃ download, KaidaDB.getMedia X checks request p.cache p.store = .ok download p.store ∧
      download.response.Same (o.download request.range) := by
  have hread := h.readable hinj ho hspared
  subst hkey
  obtain ⟨u, h, hworn⟩ := h
  have hm := h.manifests (normalizeKey request.rawKey)
  rw [ho] at hm
  obtain ⟨download, hx, hsame⟩ := (h.known _ o ho).download hinj
    (show p.store.view.index.manifests[normalizeKey request.rawKey]? = _ by
      rw [show p.store.view.index = u.index from hworn.index]; exact hm) hread h.cached checks
  have hhealthy : (lens X true).healthy p.store := by
    rw [hworn.rest]
    exact h.healthy
  obtain ⟨st, hrun, -⟩ := hx p.store hhealthy rfl
  obtain ⟨rfl, -⟩ := (reads_getMedia hworn.reads_chunk h.cached checks request).of_ok hrun
  exact ⟨download, hrun, hsame⟩

theorem Weathered.range {offset length : Nat} (hoffset : offset < 2 ^ 64) (hlength : length < 2 ^ 64) :
    ∃ cache, KaidaDB.streamMedia X ⟨.ok (), key, offset, length⟩ p.cache p.store
      = .ok (.ok ((o.messages offset length).map .ok), cache) p.store := by
  have hread := h.readable hinj ho hspared
  obtain ⟨u, h, hworn⟩ := h
  have hm := h.manifests key
  rw [ho] at hm
  have hknown := h.known _ o ho
  obtain ⟨cache, hx⟩ := does_streamMedia hinj
    (show p.store.view.index.manifests[key]? = _ by
      rw [show p.store.view.index = u.index from hworn.index]; exact hm) (hknown.describes key) hread
    (hknown.sentParts key hoffset hlength) h.cached
  have hhealthy : (lens X true).healthy p.store := by
    rw [hworn.rest]
    exact h.healthy
  obtain ⟨st, hrun, -⟩ := hx p.store hhealthy rfl
  obtain ⟨rfl, -⟩ := (reads_streamMedia hworn.reads_chunk h.cached _).of_ok hrun
  exact ⟨cache, hrun⟩

end

/-- **What handlers are made of**, on damaged files. -/
theorem Weathered.handlerRules (hinj : Set.InjOn X.sha256 D) :
    HandlerRules X D (Weathered X D B) ApiReply.CutShort where
  plain := ApiReply.Plain.cutShort
  state := fun ⟨_, h, _⟩ => h.state
  manifests := fun ⟨_, h, hworn⟩ => (congrArg IndexState.manifests hworn.index).trans h.index_manifests
  invalidateAll := fun ⟨u, h, hworn⟩ ids => by
    obtain ⟨cache, hcache, hrun⟩ := invalidateAll_run h.cached ids
    exact ⟨cache, hrun _, u, h.setCache hcache, hworn⟩
  put := fun ⟨_, h, hworn⟩ job ending hD hlen =>
    Weathered.carry (h.put job ending hD hlen) (hworn.uploadWorker _ job ending hD)
  delete := fun ⟨_, h, hworn⟩ key => Weathered.carry (r := .ok _) (h.delete key) (hworn.delete key)
  rename := fun ⟨_, h, hworn⟩ fromKey toKey =>
    Weathered.carry (h.rename fromKey toKey) (hworn.rename fromKey toKey)
  deleteStream := fun ⟨_, h, hworn⟩ streamId => by
    rw [hworn.index]
    exact Weathered.carry (r := .ok _) (h.deleteStream streamId) (hworn.deletePages _ _ _ _)
  getMedia := Weathered.getMedia hinj
  streamMedia := Weathered.streamMedia hinj

end

/-! ## Runs -/

section
variable {p : Process} {s : Service}

theorem Weathered.step (hX : X.Lawful) (h : Weathered X D B p s) (hinj : Set.InjOn X.sha256 D) (ops : DashOps)
    (checks : Bool) (event : ProcessEvent) (hsized : event.Sized) (hD : ∀ q, q <:+: event.body → q ∈ D) :
    Weathered X D B (p.step X ops checks event).1 (s.step X ops event).1 ∧
      List.Forall₂ ApiReply.CutShort (p.step X ops checks event).2 (s.step X ops event).2 := by
  cases event with
  | request request =>
    obtain ⟨hnext, hcut⟩ := (Weathered.handlerRules hinj).serve h ops checks request hsized hD
    exact ⟨hnext, .cons hcut .nil⟩
  | gc grace =>
    obtain ⟨u, h, hworn⟩ := h
    obtain ⟨report, st, hrun, hst⟩ := h.gc grace
    have hrun' : StorageEngine.gc grace u = .ok report st := hrun
    have hswept := Swept.gc hworn.calm grace
    have hswept' := Swept.gc hworn.io grace
    rw [hrun'] at hswept
    rw [hworn.index, hworn.clock] at hswept'
    rw [Process.step]
    cases hgc : StorageEngine.gc grace p.store with
    | ok report' st' =>
      rw [hgc] at hswept'
      exact ⟨⟨st, hst, hworn.swept hswept hswept'⟩, .nil⟩
    | error e st' =>
      rw [hgc] at hswept'
      exact ⟨⟨st, hst, hworn.swept hswept hswept'⟩, .nil⟩
  | tick now =>
    obtain ⟨u, h, hworn⟩ := h
    exact ⟨⟨_, h.tick now, hworn.tick now⟩, .nil⟩
  | restart state durability maxCache =>
    obtain ⟨u, h, hworn⟩ := h
    obtain ⟨st, hopen, hst⟩ := h.restart hX state durability maxCache hsized
    obtain ⟨st', hopen', hworn'⟩ := hworn.openWith durability hopen
    rw [Process.step, hopen']
    exact ⟨⟨st, hst, hworn'⟩, .nil⟩

/-- Damage to a file that is found out when it is read. -/
theorem Weathered.damage (h : Weathered X D B p s) {hex : String} (hB : hex ∈ B) (file : Option ChunkFile)
    (hfile : ∀ f, file = some f → ∀ (id : ChunkId) data, id.toHex = hex →
      decodeChunk X f.bytes = .ok data → data ∈ D ∧ id = ChunkId.fromData X data) :
    Weathered X D B (p.damage hex file) s := by
  obtain ⟨u, h, hworn⟩ := h
  have hrest : ∀ files, { p.store with files } = { u with files } := fun files =>
    congrArg (fun st : Store => { st with files }) hworn.rest
  have hapart : ∀ name ∉ B, hex ≠ name := fun name hname heq => hname (heq ▸ hB)
  cases file with
  | none =>
    refine ⟨u, h, hrest _, hworn.calm, hworn.honest.erase hex, fun name hname => ?_⟩
    exact ((FinMap.get_erase _ _ _).trans (if_neg (hapart name hname))).trans (hworn.spared name hname)
  | some f =>
    refine ⟨u, h, hrest _, hworn.calm, hworn.honest.insert (hfile f rfl), fun name hname => ?_⟩
    exact ((FinMap.get_insert _ _ _ _).trans (if_neg (hapart name hname))).trans (hworn.spared name hname)

theorem Weathered.endure (hX : X.Lawful) (hinj : Set.InjOn X.sha256 D) (ops : DashOps) (checks : Bool) :
    ∀ (events : List DiskEvent) {p : Process} {s : Service}, Weathered X D B p s →
      (∀ event ∈ events.filterMap DiskEvent.process?, event.Sized) →
      (∀ event ∈ events.filterMap DiskEvent.process?, ∀ q, q <:+: event.body → q ∈ D) →
      (∀ hex f, .damage hex (some f) ∈ events → ∀ (id : ChunkId) data, id.toHex = hex →
        decodeChunk X f.bytes = .ok data → data ∈ D ∧ id = ChunkId.fromData X data) →
      (∀ hex file, .damage hex file ∈ events → hex ∈ B) →
      Weathered X D B (p.endure X ops checks events).1
          (s.run X ops (events.filterMap DiskEvent.process?)).1 ∧
        List.Forall₂ ApiReply.CutShort (p.endure X ops checks events).2
          (s.run X ops (events.filterMap DiskEvent.process?)).2
  | [], _, _, h, _, _, _, _ => ⟨h, .nil⟩
  | .process event :: events, p, s, h, hsized, hD, hfiles, hB => by
    rw [List.filterMap_cons_some (f := DiskEvent.process?) rfl] at hsized hD ⊢
    obtain ⟨hstep, hreplies⟩ := h.step hX hinj ops checks event (hsized event List.mem_cons_self)
      (hD event List.mem_cons_self)
    obtain ⟨hrun, hlater⟩ := Weathered.endure hX hinj ops checks events hstep
      (fun e he => hsized e (List.mem_cons_of_mem _ he)) (fun e he => hD e (List.mem_cons_of_mem _ he))
      (fun hex f hf => hfiles hex f (List.mem_cons_of_mem _ hf))
      fun hex file hf => hB hex file (List.mem_cons_of_mem _ hf)
    exact ⟨hrun, List.rel_append hreplies hlater⟩
  | .damage hex file :: events, p, s, h, hsized, hD, hfiles, hB => by
    rw [List.filterMap_cons_none (f := DiskEvent.process?) rfl] at hsized hD ⊢
    have hdamaged : Weathered X D B (p.damage hex file) s := h.damage (hB hex file List.mem_cons_self) file
      fun f hf => hfiles hex f (hf ▸ List.mem_cons_self)
    obtain ⟨hrun, hlater⟩ := Weathered.endure hX hinj ops checks events hdamaged hsized hD
      (fun hex f hf => hfiles hex f (List.mem_cons_of_mem _ hf))
      fun hex file hf => hB hex file (List.mem_cons_of_mem _ hf)
    exact ⟨hrun, hlater⟩

theorem Weathered.start (state : AppState) (hsize : state.engine.Sized) (dataDir : String)
    (maxCache : Nat) : Weathered X D B (Process.start state dataDir maxCache) (.empty state) :=
  ⟨_, .start state hsize dataDir maxCache, rfl, rfl,
    fun id f data hf => by simp [Process.start, Store.emptyDir] at hf, fun _ _ => rfl⟩

end

/-- The names of the files that get damaged. -/
def damagedNames (events : List DiskEvent) : Set String := {hex | ∃ file, .damage hex file ∈ events}

section
variable (hX : X.Lawful) (ops : DashOps) (checks : Bool) (state : AppState)
  (hsize : state.engine.Sized) (dataDir : String) (maxCache : Nat) (events : List DiskEvent)
  (hsized : ∀ event ∈ events.filterMap DiskEvent.process?, event.Sized)
  (hdiffer : PiecesDiffer X (events.filterMap DiskEvent.process?)) (hdetect : Detectable X events)
include hX hsize hsized hdiffer hdetect

theorem Weathered.endured : Weathered X
      (pieces ((events.filterMap DiskEvent.process?).map ProcessEvent.body)) (damagedNames events)
      ((Process.start state dataDir maxCache).endure X ops checks events).1
      ((Service.empty state).run X ops (events.filterMap DiskEvent.process?)).1 ∧
    List.Forall₂ ApiReply.CutShort ((Process.start state dataDir maxCache).endure X ops checks events).2
      ((Service.empty state).run X ops (events.filterMap DiskEvent.process?)).2 :=
  Weathered.endure hX hdiffer ops checks events (.start state hsize dataDir maxCache) hsized
    (fun _ he _ hq => ⟨_, List.mem_map_of_mem he, hq⟩) hdetect fun _ file hf => ⟨file, hf⟩

/-- **What is not damaged comes back.** After such a run, an object none of whose chunk files has been
damaged is served whole, over either API. -/
theorem undamaged_objects_come_back {key : String} {o : StoredObject}
    (ho : ((Service.empty state).run X ops (events.filterMap DiskEvent.process?)).1.objects[key]? = some o)
    (hspared : ∀ piece ∈ Slices.slices o.chunkSize o.data,
      (ChunkId.fromData X piece).toHex ∉ damagedNames events) :
    let p := ((Process.start state dataDir maxCache).endure X ops checks events).1
    (∀ request : GetMedia, normalizeKey request.rawKey = key → ∃ download,
      getMedia X checks request p.cache p.store = .ok download p.store ∧
        download.response.Same (o.download request.range)) ∧
    ∀ offset < 2 ^ 64, ∀ length < 2 ^ 64, ∃ cache,
      streamMedia X ⟨.ok (), key, offset, length⟩ p.cache p.store
        = .ok (.ok ((o.messages offset length).map .ok), cache) p.store := by
  obtain ⟨h, -⟩ := Weathered.endured hX ops checks state hsize dataDir maxCache events hsized hdiffer hdetect
  exact ⟨fun request hkey => h.download hdiffer ho hspared checks request hkey,
    fun offset hoffset length hlength => h.range hdiffer ho hspared hoffset hlength⟩

end

/-- Of two objects with one chunk each, that of the first is lost, and another file is overwritten. Then the
first one is asked for. -/
def lostAndRead : List DiskEvent :=
  [.process (.request (.rest ⟨localClient, .put, "/v1/media/a", .ok ⟨none, none, none⟩, .error (400, ""),
      [[1, 2], [3]], .clean⟩)),
    .process (.request (.grpc localClient
      (.storeMedia [some (.header "b" "" []), some (.chunkData [2])] .clean))),
    .damage (ChunkId.fromData .reference [1, 2, 3]).toHex none, .damage "00" (some ⟨[0], 0⟩),
    .process (.restart guardedState .none 10),
    .process (.request (.grpc localClient (.streamMedia "a" 1 1)))]

theorem lostAndRead_sized : ∀ event ∈ lostAndRead.filterMap DiskEvent.process?, event.Sized := by
  simp only [lostAndRead, List.filterMap_cons, DiskEvent.process?, List.filterMap_nil, List.forall_mem_cons,
    List.not_mem_nil, false_implies, implies_true, and_true]
  exact ⟨(by decide : 3 < 2 ^ 64), (by decide : 1 < 2 ^ 64), ⟨by decide, by decide⟩, ⟨by decide, by decide⟩⟩

theorem lostAndRead_differ : PiecesDiffer .reference (lostAndRead.filterMap DiskEvent.process?) :=
  reference_free (by decide +kernel)

theorem lostAndRead_detectable : Detectable .reference lostAndRead := by
  intro hex f hf id data hid hdata
  simp only [lostAndRead, List.mem_cons, reduceCtorEq, DiskEvent.damage.injEq, Option.some.injEq,
    and_false, false_or, List.not_mem_nil, or_false] at hf
  obtain ⟨-, rfl⟩ := hf
  cases hdata

/-- The second object is still there. -/
theorem undamaged_objects_come_back_second :
    let p := ((Process.start guardedState "data" 100).endure .reference exactSeconds true lostAndRead).1
    (∀ request : GetMedia, normalizeKey request.rawKey = "b" → ∃ download,
      getMedia .reference true request p.cache p.store = .ok download p.store ∧
        download.response.Same (StoredObject.download ⟨[2], "", [], 4, 0, 0⟩ request.range)) ∧
    ∀ offset < 2 ^ 64, ∀ length < 2 ^ 64, ∃ cache,
      streamMedia .reference ⟨.ok (), "b", offset, length⟩ p.cache p.store
        = .ok (.ok ((StoredObject.messages ⟨[2], "", [], 4, 0, 0⟩ offset length).map .ok), cache) p.store :=
  undamaged_objects_come_back Crates.reference_lawful exactSeconds true guardedState ⟨by decide, by decide⟩
    "data" 100
    lostAndRead lostAndRead_sized lostAndRead_differ lostAndRead_detectable (by decide +kernel) (by
      intro piece hpiece hdamaged
      have hslices : Slices.slices 4 ([2] : Bytes) = [[2]] := by decide
      change piece ∈ Slices.slices 4 ([2] : Bytes) at hpiece
      rw [hslices, List.mem_singleton] at hpiece
      subst hpiece
      obtain ⟨file, hf⟩ := hdamaged
      simp only [lostAndRead, List.mem_cons, reduceCtorEq, DiskEvent.damage.injEq, List.not_mem_nil, or_false,
        false_or] at hf
      obtain ⟨hname, -⟩ | ⟨hname, -⟩ := hf
      · have hid := congrArg ChunkId.bytes (ChunkId.toHex_injective hname)
        have hsample : ∀ b ∈ [sampleText], b <:+: sampleText := by simp
        have hpieces : ([2] : Bytes) = [1, 2, 3] := reference_free hsample
          ⟨_, List.mem_singleton_self _, by decide⟩ ⟨_, List.mem_singleton_self _, by decide⟩ hid
        cases hpieces
      · have hsize := ChunkId.utf8ByteSize_toHex (ChunkId.fromData .reference [2])
        rw [hname] at hsize
        exact absurd hsize (by decide))

end KaidaDB
