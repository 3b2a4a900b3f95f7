import KaidaDB.Api.GetMedia
import KaidaDB.Api.Proof.RangeHeader
import KaidaDB.Api.Proof.StreamMedia
import KaidaDB.Storage.Proof.RangeChecks

/-!
# What a download over REST sends

For an object that is not empty the body is the selected range, and length and range in the headers are
those of the body (`does_getMedia`). An empty object has no chunk to send, and the task asks for the
first one (`does_getMedia_empty`).
-/

namespace KaidaDB

open Effects

variable {X : Crates} {D : Set Bytes} {c : View} {logged : Bool} {m : MediaManifest}

/-! ## The selected range -/

/-- A selected range is not empty and lies in the object. -/
theorem parseRangeHeader_within {range : Option Bytes} {totalSize start length : Nat}
    (h0 : 0 < totalSize) (h64 : totalSize < 2 ^ 64)
    (h : parseRangeHeader range totalSize = (start, length, true)) :
    1 ≤ length ∧ start + length ≤ totalSize := by
  cases hstr : range.bind headerStr with
  | none =>
    rw [parseRangeHeader, if_neg (by omega), hstr] at h
    simp at h
  | some str =>
    have haccepts := (parseRangeHeader_eq h0 h64 hstr start length).1 h
    generalize str.toList = text at haccepts
    cases haccepts with
    | bounds ha hlt hb =>
      have hle := (le_lastByte hlt).2 hb
      have hlast : ∀ b, lastByte totalSize b ≤ totalSize - 1 := fun b => by
        rw [lastByte_eq]
        cases parseU64 b with
        | none => exact Nat.le_refl _
        | some n => exact Nat.min_le_right _ _
      have := hlast ‹_›
      omega
    | suffix hs hlt hpos => omega

/-! ## The loops -/

theorem chunkAt_ok {pieces : List Bytes} {idx : Nat} (h : idx < pieces.length) :
    chunkAt (pieces.map (ChunkId.fromData X)) idx = .ok (ChunkId.fromData X pieces[idx]) := by
  rw [chunkAt, List.getElem?_map, List.getElem?_eq_getElem h]
  rfl

section
variable (hinj : Set.InjOn X.sha256 D) {pieces : List Bytes} (hD : ∀ p ∈ pieces, p ∈ D)
  (hread : Readable X logged c pieces)
include hinj hD hread

theorem does_prefetch (count idx : Nat) (hidx : idx + count ≤ pieces.length)
    {cache : ChunkCache} (hcache : Cached X D cache) :
    ∃ cache', Does (lens X logged) (prefetch X (pieces.map (ChunkId.fromData X)) count idx cache) c
      (.ok cache') c ∧ Cached X D cache' := by
  induction count generalizing idx cache with
  | zero => exact ⟨cache, Does.pure _, hcache⟩
  | succ count ih =>
    have hlt : idx < pieces.length := by omega
    have hmem := List.getElem_mem hlt
    obtain ⟨cache1, hchunk, hcache1⟩ := does_cachedChunk hinj hcache (hD _ hmem) (hread _ hmem)
    obtain ⟨cache2, hrest, hcache2⟩ := ih (idx + 1) (by omega) hcache1
    refine ⟨cache2, ?_, hcache2⟩
    rw [prefetch, chunkAt_ok hlt]
    exact Does.bind (Does.pure _) (Does.bind hchunk hrest)

theorem does_sendBody {offset stop : Nat} (hn : 0 < m.chunkSize) (hlt : offset < stop)
    (hchunks : m.chunks = pieces.map (ChunkId.fromData X)) (checks : Bool) (count : Nat) {idx : Nat}
    {parts : List Bytes} (hfirst : m.startChunkIdx offset ≤ idx)
    (hlast : idx + count = m.endChunkIdx stop + 1) (hlen : m.endChunkIdx stop < pieces.length)
    (hcuts : Cuts m offset stop idx ((pieces.drop idx).take count) parts)
    {cache : ChunkCache} (hcache : Cached X D cache) :
    ∃ cache', Does (lens X logged) (sendBody X checks m offset stop (m.startChunkIdx offset)
      (m.endChunkIdx stop) count idx cache) c (.ok (parts.map .ok, none, cache')) c := by
  induction count generalizing idx parts cache with
  | zero =>
    rw [List.take_zero] at hcuts
    cases hcuts
    exact ⟨cache, Does.pure _⟩
  | succ count ih =>
    have hidx : idx < pieces.length := by omega
    have hmem := List.getElem_mem hidx
    rw [List.drop_eq_getElem_cons hidx, List.take_succ_cons] at hcuts
    cases hcuts with
    | cons hpart h =>
      obtain ⟨cache1, hchunk, hcache1⟩ := does_cachedChunk hinj hcache (hD _ hmem) (hread _ hmem)
      obtain ⟨cache2, hrest⟩ := ih (show m.startChunkIdx offset ≤ idx + 1 by omega) (by omega) h hcache1
      refine ⟨cache2, ?_⟩
      rw [sendBody, hchunks, chunkAt_ok hidx]
      refine Does.bind hchunk ?_
      dsimp only
      rw [cutChunk_eq hn hlt checks hfirst (by omega), hpart]
      exact Does.bind hrest (Does.pure _)

end

/-! ## The handler -/

/-- The response to a download of the bytes from `offset` on. -/
def expectedResponse (m : MediaManifest) (offset length : Nat) (isRange : Bool) (parts : List Bytes) :
    MediaResponse :=
  if isHeaderValue m.contentType then
    .stream (if isRange then 206 else 200)
      ([("content-type", m.contentType), ("accept-ranges", "bytes")] ++
        if isRange then [("content-length", toString length),
          ("content-range", s!"bytes {offset}-{offset + length - 1}/{m.totalSize}")]
        else [("content-length", toString m.totalSize)])
      (parts.map .ok)
  else .text 500 "failed to parse header value"

/-- The last step: the response is made if its headers can be. -/
theorem does_respond {X : Crates} {logged : Bool} {c : View} {valid : Prop} [Decidable valid]
    {response error : MediaResponse} {panic : Option Fail} {cache : ChunkCache} :
    Does (lens X logged)
      (if valid then pure ⟨response, panic, cache⟩ else pure ⟨error, panic, cache⟩ : M Download) c
      (.ok ⟨if valid then response else error, panic, cache⟩) c := by
  by_cases h : valid
  · rw [if_pos h, if_pos h]
    exact Does.pure _
  · rw [if_neg h, if_neg h]
    exact Does.pure _

/-- Where the selected range begins and ends. -/
theorem selected_range {range : Option Bytes} {totalSize offset length : Nat} {isRange : Bool}
    (h0 : 0 < totalSize) (h64 : totalSize < 2 ^ 64)
    (h : parseRangeHeader range totalSize = (offset, length, isRange)) :
    offset < totalSize ∧ offset + length ≤ totalSize ∧
      (isRange = true → 1 ≤ length ∧ rangeEnd totalSize offset length = offset + length) ∧
      (isRange = false → offset = 0 ∧ length = 0) := by
  cases isRange with
  | true =>
    obtain ⟨h1, h2⟩ := parseRangeHeader_within h0 h64 h
    refine ⟨by omega, h2, fun _ => ⟨h1, ?_⟩, (fun h => by cases h)⟩
    rw [rangeEnd, if_neg (by omega), Nat.mod_eq_of_lt (by omega)]
    omega
  | false =>
    obtain ⟨rfl, rfl⟩ := parseRangeHeader_whole h
    exact ⟨h0, Nat.zero_le _, (fun h => by cases h), fun _ => ⟨rfl, rfl⟩⟩

/-- What `get_media` computes for the selected range: where it ends, how many chunks it crosses, and the
parts that are cut from these. -/
structure DownloadPlan (checks : Bool) (m : MediaManifest) (d : Bytes) (offset length : Nat) (isRange : Bool)
    (stop k : Nat) (parts : List Bytes) : Prop where
  ends : rangeStop checks m.totalSize offset length = .ok stop
  last : lastIdx checks m.chunkSize stop = .ok (m.endChunkIdx stop)
  headers : downloadHeaders checks m offset stop isRange
    = .ok ([("content-type", m.contentType), ("accept-ranges", "bytes")] ++
      if isRange then [("content-length", toString length),
        ("content-range", s!"bytes {offset}-{offset + length - 1}/{m.totalSize}")]
      else [("content-length", toString m.totalSize)])
  nonempty : offset < stop
  order : m.startChunkIdx offset ≤ m.endChunkIdx stop
  count : m.startChunkIdx offset + k = m.endChunkIdx stop + 1
  inside : m.endChunkIdx stop < m.chunks.length
  cuts : Cuts m offset stop (m.startChunkIdx offset)
    (((Slices.slices m.chunkSize d).drop (m.startChunkIdx offset)).take k) parts
  whole : parts.flatten = range d offset length

theorem DownloadPlan.sent {checks : Bool} {m : MediaManifest} {d : Bytes} {offset length : Nat} {isRange : Bool}
    {stop k : Nat} {parts : List Bytes} (h : DownloadPlan checks m d offset length isRange stop k parts) :
    min (m.endChunkIdx stop) (m.chunks.length - 1) + 1 - m.startChunkIdx offset = k := by
  have hcount := h.count
  have hinside := h.inside
  omega

theorem Describes.plan {d : Bytes} (hd : Describes X D m d) (h0 : 0 < d.length) (h64 : d.length < 2 ^ 64)
    (checks : Bool) {rangeHeader : Option Bytes} {offset length : Nat} {isRange : Bool}
    (hparse : parseRangeHeader rangeHeader m.totalSize = (offset, length, isRange)) :
    ∃ stop k parts, DownloadPlan checks m d offset length isRange stop k parts := by
  have htotal := hd.total
  obtain ⟨hoff, hle, hrange, hwhole⟩ := selected_range (by omega) (by omega) hparse
  have hlen : offset + length < 2 ^ 64 := by omega
  obtain ⟨k, hk, hlt, hin, hcuts⟩ := hd.cuts hlen (by omega)
  have hstop := rangeStop_ok checks m.totalSize hlen
  generalize hend : rangeEnd m.totalSize offset length = stop at *
  have hsize := hd.size
  refine ⟨stop, k, _, hstop, ?_, ?_, hlt, ?_, hk, hin, ?_, flatten_rangePieces hsize d offset length⟩
  · rw [lastIdx, if_neg (by omega), subU64_ok checks (by omega), MediaManifest.endChunkIdx,
      wrappingSub_le (by omega)]
    rfl
  · cases isRange with
    | false => rfl
    | true =>
      obtain ⟨h1, h2⟩ := hrange rfl
      rw [downloadHeaders, subU64_ok checks (by omega), subU64_ok checks (by omega),
        show stop - offset = length by omega, show stop - 1 = offset + length - 1 by omega]
      rfl
  · rw [MediaManifest.endChunkIdx, wrappingSub_le (by omega)]
    exact Nat.div_le_div_right (by omega)
  · rwa [Slices.drop_slices hsize]

section
variable {request : GetMedia} (hm : c.index.manifests[normalizeKey request.rawKey]? = some m)
include hm

theorem does_getMedia (hinj : Set.InjOn X.sha256 D) {d : Bytes} (hd : Describes X D m d)
    (hread : Readable X logged c (Slices.slices m.chunkSize d)) (h0 : 0 < d.length)
    (h64 : d.length < 2 ^ 64) (checks : Bool) {cache : ChunkCache} (hcache : Cached X D cache)
    {offset length : Nat} {isRange : Bool}
    (hparse : parseRangeHeader request.range m.totalSize = (offset, length, isRange)) :
    ∃ parts cache', Does (lens X logged) (getMedia X checks request cache) c
        (.ok ⟨expectedResponse m offset length isRange parts, none, cache'⟩) c ∧
      parts.flatten = range d offset length := by
  obtain ⟨stop, k, parts, hplan⟩ := hd.plan h0 h64 checks hparse
  obtain ⟨cache1, hwarm, hcache1⟩ : ∃ cache', Does (lens X logged) _ c (.ok cache') c ∧ _ :=
    does_prefetch hinj hd.known hread (min (min (m.endChunkIdx stop + 1) (m.startChunkIdx offset + 3))
      m.chunks.length - m.startChunkIdx offset) (m.startChunkIdx offset)
      (by rw [← hd.length_chunks]; have := hplan.order; have := hplan.inside; omega) hcache
  obtain ⟨cache2, hsend⟩ := does_sendBody hinj hd.known hread hd.size hplan.nonempty hd.chunks checks k
    (Nat.le_refl _) hplan.count (by rw [← hd.length_chunks]; exact hplan.inside) hplan.cuts hcache1
  refine ⟨parts, cache2, Does.bind does_getManifest ?_, hplan.whole⟩
  rw [hm]
  dsimp only
  rw [hparse]
  dsimp only
  rw [hplan.ends]
  refine Does.bind (Does.pure _) ?_
  rw [if_neg hd.size.ne', hplan.last]
  refine Does.bind (Does.pure _) ?_
  rw [← hd.chunks] at hwarm
  rw [show offset / m.chunkSize = m.startChunkIdx offset from rfl]
  refine Does.bind hwarm ?_
  rw [hplan.sent]
  refine Does.bind hsend ?_
  dsimp only
  rw [hplan.headers]
  exact Does.bind (Does.pure _) does_respond

/-- The task of a download of an empty object fails at once. -/
theorem does_getMedia_empty (hn : 0 < m.chunkSize) (htotal : m.totalSize = 0) (hchunks : m.chunks = [])
    (checks : Bool) (cache : ChunkCache) :
    Does (lens X logged) (getMedia X checks request cache) c
      (.ok ⟨expectedResponse m 0 0 false [],
        some (.panic "index out of bounds: the len is 0 but the index is 0"), cache⟩) c := by
  have hparse : parseRangeHeader request.range m.totalSize = (0, 0, false) := by
    rw [parseRangeHeader, if_pos htotal]
  refine Does.bind does_getManifest ?_
  rw [hm]
  dsimp only
  rw [hparse]
  dsimp only
  rw [rangeStop, if_pos rfl, htotal, hchunks]
  refine Does.bind (Does.pure _) ?_
  rw [if_neg (by omega), lastIdx, if_pos rfl, Nat.zero_div]
  refine Does.bind (Does.pure _) (Does.bind (Does.pure _) ?_)
  have hsend : sendBody X checks m 0 0 0 0 1 0 cache
      = pure ([], some (.panic "index out of bounds: the len is 0 but the index is 0"), cache) := by
    rw [sendBody, hchunks]
    rfl
  refine Does.bind (hsend ▸ Does.pure _) ?_
  dsimp only
  rw [downloadHeaders, if_neg (by decide)]
  exact Does.bind (Does.pure _) does_respond

end

/-! ## Downloads from a server -/

/-- What the headers of a download promise of its body: its length, and that it is the object or the
selected range of it, as `read_range` reads it. -/
def KeepsPromise (X : Crates) (s : Server) (request : GetMedia) (d : Bytes) (response : MediaResponse) :
    Prop :=
  ∃ (status : Nat) (headers : List (String × String)) (body : List Bytes),
    response = .stream status headers (body.map .ok) ∧
    headers.lookup "content-length" = some (toString body.flatten.length) ∧
    (∀ start length, parseRangeHeader request.range d.length = (start, length, false) →
      status = 200 ∧ headers.lookup "content-range" = none ∧ body.flatten = d) ∧
    (∀ start length, parseRangeHeader request.range d.length = (start, length, true) →
      status = 206 ∧ 1 ≤ length ∧ start + length ≤ d.length ∧
      headers.lookup "content-range" = some s!"bytes {start}-{start + length - 1}/{d.length}" ∧
      body.flatten = (d.drop start).take length ∧
      returned (StorageEngine.readRange X (normalizeKey request.rawKey) start length s.world.store)
        = .ok body.flatten)

theorem expectedResponse_keeps {s : Server} {request : GetMedia} {d : Bytes} {offset length : Nat}
    {isRange : Bool} (h : s.Serves X D (normalizeKey request.rawKey) m d) (h0 : 0 < d.length)
    (h64 : d.length < 2 ^ 64)
    (hparse : parseRangeHeader request.range m.totalSize = (offset, length, isRange))
    {parts : List Bytes} (hparts : parts.flatten = range d offset length)
    (hct : isHeaderValue m.contentType = true) :
    KeepsPromise X s request d (expectedResponse m offset length isRange parts) := by
  have htotal := h.describes.total
  obtain ⟨hoff, hle, hrange, hwhole⟩ := selected_range (by omega) (by omega) hparse
  rw [expectedResponse, if_pos hct]
  refine ⟨_, _, parts, rfl, ?_, fun start count hp => ?_, fun start count hp => ?_⟩
  · cases isRange with
    | true =>
      have hlen : (range d offset length).length = length := by
        obtain ⟨h1, -⟩ := hrange rfl
        rw [range, if_neg (by omega), List.length_drop, List.length_take]
        omega
      rw [hparts, hlen]
      rfl
    | false =>
      obtain ⟨rfl, rfl⟩ := hwhole rfl
      rw [hparts, range, if_pos rfl, List.take_length, List.drop_zero, ← htotal]
      rfl
  · cases (htotal ▸ hparse).symm.trans hp
    obtain ⟨rfl, rfl⟩ := hwhole rfl
    refine ⟨rfl, rfl, ?_⟩
    rw [hparts, range, if_pos rfl, List.take_length, List.drop_zero]
  · cases (htotal ▸ hparse).symm.trans hp
    obtain ⟨h1, -⟩ := hrange rfl
    have hcut : range d offset length = (d.drop offset).take length := by
      rw [range, if_neg (by omega), List.drop_take, Nat.add_sub_cancel_left]
    refine ⟨rfl, h1, by omega, ?_, hparts.trans hcut, ?_⟩
    · rw [← htotal]
      rfl
    · rw [hparts, ← flatten_rangePieces h.describes.size]
      exact h.returned (does_readRange h.manifest h.describes h.readable
        (h.describes.rangeParts (show offset + length < 2 ^ 64 by omega)))

section
variable (hX : X.Lawful) (engine : StorageEngine) (dataDir : String) (maxSize : Nat)
  (actions : List ServerAction) (hsize : 0 < engine.chunkSize)
  (hsized : ∀ call ∈ actions.filterMap ServerAction.call?, call.Sized)
  (hfree : CollisionFree X engine (actions.filterMap ServerAction.call?))
include hX hsize hsized hfree

/-- **Downloads send what their headers promise** exactly if the content type of the object can stand in
a header. -/
theorem download_promise_iff (request : GetMedia) (d : Bytes)
    (hobject : ((Spec.fresh engine).run (actions.filterMap ServerAction.call?)).1.objects[
      normalizeKey request.rawKey]? = some d)
    (h0 : 0 < d.length) (h64 : d.length < 2 ^ 64) (checks : Bool) :
    let s := (Server.start engine dataDir maxSize).run X actions
    ∃ m, s.world.store.index.manifests[normalizeKey request.rawKey]? = some m ∧
      ((∃ download, returned (getMedia X checks request s.cache s.world.store) = .ok download ∧
        KeepsPromise X s request d download.response) ↔ isHeaderValue m.contentType = true) := by
  intro s
  obtain ⟨m, h⟩ := Server.serves_object hX engine dataDir maxSize actions hsize hsized hfree hobject
  obtain ⟨⟨offset, length, isRange⟩, hparse⟩ :
      ∃ p, parseRangeHeader request.range m.totalSize = p := ⟨_, rfl⟩
  obtain ⟨parts, cache', hget, hparts⟩ := does_getMedia h.manifest hfree h.describes h.readable h0 h64
    checks h.cached hparse
  have hrun := h.returned hget
  refine ⟨m, h.manifest, ⟨?_, fun hct => ?_⟩⟩
  · rintro ⟨download, hdownload, hkeeps⟩
    cases hrun.symm.trans hdownload
    by_contra hct
    obtain ⟨status, headers, body, hresponse, -⟩ := hkeeps
    rw [expectedResponse, if_neg hct] at hresponse
    cases hresponse
  · exact ⟨_, hrun, expectedResponse_keeps h h0 h64 hparse hparts hct⟩

end

/-- An object of two chunks with a proper content type, and one whose content type has a line break. -/
def typedActions : List ServerAction :=
  [.call (.store "a" [1, 2, 3] "video/mp4" []), .call (.store "b" [1] "video\n" [])]

theorem typedActions_free :
    CollisionFree .reference ⟨2, 0, false⟩ (typedActions.filterMap ServerAction.call?) :=
  reference_free (by decide +kernel)

theorem typedActions_sized : ∀ call ∈ typedActions.filterMap ServerAction.call?, call.Sized := by
  simp [typedActions, ServerAction.call?, Call.Sized]

theorem download_promise_iff_middle :
    let s := (Server.start ⟨2, 0, false⟩ "data" 100).run .reference typedActions
    let request : GetMedia := ⟨"/a", [("range", Utf8.encode "bytes=1-2".toList)]⟩
    ∃ m, s.world.store.index.manifests[normalizeKey request.rawKey]? = some m ∧
      ((∃ download, returned (getMedia .reference true request s.cache s.world.store) = .ok download ∧
        KeepsPromise .reference s request [1, 2, 3] download.response) ↔
      isHeaderValue m.contentType = true) :=
  download_promise_iff Crates.reference_lawful ⟨2, 0, false⟩ "data" 100 typedActions (by decide)
    typedActions_sized typedActions_free ⟨"/a", [("range", Utf8.encode "bytes=1-2".toList)]⟩ [1, 2, 3]
    (by decide +kernel) (by decide) (by decide) true

/-- The object whose content type has a line break is answered with 500. -/
theorem download_breaks_promise :
    ¬ ∀ (X : Crates) (engine : StorageEngine) (dataDir : String) (maxSize : Nat)
      (actions : List ServerAction), X.Lawful → 0 < engine.chunkSize →
      (∀ call ∈ actions.filterMap ServerAction.call?, call.Sized) →
      CollisionFree X engine (actions.filterMap ServerAction.call?) →
      ∀ (request : GetMedia) (d : Bytes),
      ((Spec.fresh engine).run (actions.filterMap ServerAction.call?)).1.objects[
        normalizeKey request.rawKey]? = some d → 0 < d.length → d.length < 2 ^ 64 →
      let s := (Server.start engine dataDir maxSize).run X actions
      ∃ download, returned (getMedia X false request s.cache s.world.store) = .ok download ∧
        KeepsPromise X s request d download.response := by
  intro h
  obtain ⟨download, hrun, status, headers, body, hresponse, -⟩ :=
    h .reference ⟨2, 0, false⟩ "data" 100 typedActions Crates.reference_lawful (by decide)
      typedActions_sized typedActions_free ⟨"b", []⟩ [1] (by decide +kernel) (by decide) (by decide)
  have htext : (returned (getMedia .reference false ⟨"b", []⟩
      ((Server.start ⟨2, 0, false⟩ "data" 100).run .reference typedActions).cache
      ((Server.start ⟨2, 0, false⟩ "data" 100).run .reference typedActions).world.store)).map
      Download.response = .ok (.text 500 "failed to parse header value") := by decide +kernel
  rw [hrun] at htext
  cases (Except.ok.inj htext).symm.trans hresponse

/-! ## Where a download looks -/

section
variable (hX : X.Lawful) (engine : StorageEngine) (dataDir : String) (maxSize : Nat)
  (actions : List ServerAction) (hsize : 0 < engine.chunkSize)
  (hsized : ∀ call ∈ actions.filterMap ServerAction.call?, call.Sized)
  (hfree : CollisionFree X engine (actions.filterMap ServerAction.call?))
include hX hsize hsized hfree

/-- **A download stays within the chunks** exactly if the object is not empty: with overflow checks
neither the handler nor its task panics. -/
theorem download_in_bounds_iff (request : GetMedia) (m : MediaManifest)
    (hm : ((Server.start engine dataDir maxSize).run X actions).world.store.index.manifests[
      normalizeKey request.rawKey]? = some m)
    (h64 : m.totalSize < 2 ^ 64) :
    let s := (Server.start engine dataDir maxSize).run X actions
    (∃ download, returned (getMedia X true request s.cache s.world.store) = .ok download ∧
      download.panic = none) ↔ 0 < m.totalSize := by
  intro s
  obtain ⟨d, -, h⟩ := Server.serves_manifest hX engine dataDir maxSize actions hsize hsized hfree hm
  have htotal := h.describes.total
  obtain hzero | hpos := Nat.eq_zero_or_pos m.totalSize
  · -- no chunk at all, and the loop of the task starts with the first one
    have hchunks : m.chunks = [] := by
      rw [h.describes.chunks, List.eq_nil_of_length_eq_zero (htotal.symm.trans hzero)]
      rfl
    have hrun := h.returned (does_getMedia_empty h.manifest h.describes.size hzero hchunks true s.cache)
    refine iff_of_false ?_ (by omega)
    rintro ⟨download, hdownload, hpanic⟩
    cases hrun.symm.trans hdownload
    cases hpanic
  · obtain ⟨⟨offset, length, isRange⟩, hparse⟩ :
        ∃ p, parseRangeHeader request.range m.totalSize = p := ⟨_, rfl⟩
    obtain ⟨parts, cache', hget, -⟩ := does_getMedia h.manifest hfree h.describes h.readable
      (htotal ▸ hpos) (htotal ▸ h64) true h.cached hparse
    exact iff_of_true ⟨_, h.returned hget, rfl⟩ hpos

end

theorem download_in_bounds_iff_one :
    let s := (Server.start ⟨2, 0, false⟩ "data" 100).run .reference typedActions
    let request : GetMedia := ⟨"a", []⟩
    ∃ m, s.world.store.index.manifests[normalizeKey request.rawKey]? = some m ∧
      ((∃ download, returned (getMedia .reference true request s.cache s.world.store) = .ok download ∧
        download.panic = none) ↔ 0 < m.totalSize) := by
  have hsize : (((Server.start ⟨2, 0, false⟩ "data" 100).run .reference
      typedActions).world.store.index.manifests[normalizeKey (⟨"a", []⟩ : GetMedia).rawKey]?).map
      MediaManifest.totalSize = some 3 := by decide +kernel
  obtain ⟨m, hm, hthree⟩ := Option.map_eq_some_iff.1 hsize
  exact ⟨m, hm, download_in_bounds_iff Crates.reference_lawful ⟨2, 0, false⟩ "data" 100 typedActions
    (by decide) typedActions_sized typedActions_free ⟨"a", []⟩ m hm (by rw [hthree]; decide)⟩

/-- An empty object, as for a directory. -/
def emptyObject : List ServerAction := [.call (.store "dir/" [] "" [])]

/-- The task for an empty object asks for a chunk that is not there. -/
theorem download_out_of_bounds :
    ¬ ∀ (X : Crates) (engine : StorageEngine) (dataDir : String) (maxSize : Nat)
      (actions : List ServerAction), X.Lawful → 0 < engine.chunkSize →
      (∀ call ∈ actions.filterMap ServerAction.call?, call.Sized) →
      CollisionFree X engine (actions.filterMap ServerAction.call?) →
      ∀ (request : GetMedia) (m : MediaManifest),
      ((Server.start engine dataDir maxSize).run X actions).world.store.index.manifests[
        normalizeKey request.rawKey]? = some m → m.totalSize < 2 ^ 64 →
      let s := (Server.start engine dataDir maxSize).run X actions
      ∃ download, returned (getMedia X true request s.cache s.world.store) = .ok download ∧
        download.panic = none := by
  intro h
  let s := (Server.start ⟨2, 0, false⟩ "data" 100).run .reference emptyObject
  have hfree : CollisionFree .reference ⟨2, 0, false⟩ (emptyObject.filterMap ServerAction.call?) :=
    reference_free (by decide +kernel)
  have hsize : (s.world.store.index.manifests["dir/"]?).map MediaManifest.totalSize = some 0 := by
    decide +kernel
  obtain ⟨m, hm, hzero⟩ := Option.map_eq_some_iff.1 hsize
  obtain ⟨download, hrun, hpanic⟩ := h .reference ⟨2, 0, false⟩ "data" 100 emptyObject
    Crates.reference_lawful (by decide) (by simp [emptyObject, ServerAction.call?, Call.Sized]) hfree
    ⟨"dir/", []⟩ m hm (by rw [hzero]; decide)
  have hindex : (returned (getMedia .reference true ⟨"dir/", []⟩ s.cache s.world.store)).map
      Download.panic = .ok (some (.panic "index out of bounds: the len is 0 but the index is 0")) := by
    decide +kernel
  rw [hrun] at hindex
  cases (Except.ok.inj hindex).symm.trans hpanic

end KaidaDB
