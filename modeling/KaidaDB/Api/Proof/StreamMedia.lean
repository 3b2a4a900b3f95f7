import KaidaDB.Api.StreamMedia
import KaidaDB.Cache.Proof.Accounting
import KaidaDB.Crates.Reference
import KaidaDB.Storage.Proof.Range
import KaidaDB.Storage.Proof.Refinement

/-!
# All readers of a range agree

`Cached`: what the shared cache holds under an id is contents of that id. Since ids determine contents,
a chunk taken from the cache is the one in storage, so `stream_media` sends what `read_range` returns and
`stream` sends: the plain slice (`range_readers_agree`). `SentParts` also covers the ranges whose end
does not fit into a `u64`.
-/

namespace KaidaDB

open Effects ChunkCache

variable {X : Crates} {D : Set Bytes} {c : View} {logged : Bool}

/-- Data of the domain under the id of its contents. -/
def Genuine (X : Crates) (D : Set Bytes) (id : ChunkId) (data : Bytes) : Prop :=
  data ∈ D ∧ id = ChunkId.fromData X data

/-- The cache counts at least what it holds, and holds genuine data only. -/
def Cached (X : Crates) (D : Set Bytes) (cache : ChunkCache) : Prop :=
  ∃ last, cache.Bounded last ∧ ∀ id data, last id = some data → Genuine X D id data

namespace Cached

variable {cache : ChunkCache}

theorem new (maxSize : Nat) : Cached X D (.new maxSize) := ⟨_, .new maxSize, fun _ _ h => by cases h⟩

theorem step (h : Cached X D cache) (op : CacheOp)
    (hop : ∀ id data, op = .insert id data → Genuine X D id data) :
    ∃ cache', cache.step op = .ok cache' ∧ Cached X D cache' := by
  obtain ⟨last, hb, hlast⟩ := h
  obtain ⟨cache', hstep, -, hb', -⟩ := hb.step op
  refine ⟨cache', hstep, _, hb', fun id data hd => ?_⟩
  cases op with
  | get id' => exact hlast id data hd
  | insert id' data' =>
    simp only [lastInserted] at hd
    split_ifs at hd with hid
    · cases hd
      exact hid.1 ▸ hop id' data rfl
    · exact hlast id data hd
  | invalidate id' =>
    simp only [lastInserted] at hd
    split_ifs at hd
    exact hlast id data hd

theorem get (h : Cached X D cache) (id : ChunkId) : Cached X D (cache.get id).2 := by
  obtain ⟨cache', hstep, h'⟩ := h.step (.get id) nofun
  cases hstep
  exact h'

theorem genuine (h : Cached X D cache) {id : ChunkId} {data : Bytes}
    (hget : (cache.get id).1 = some data) : Genuine X D id data := by
  obtain ⟨last, hb, hlast⟩ := h
  rw [(get_eq cache id).1] at hget
  exact hlast id data (hb.fresh id data hget)

end Cached

/-! ## The handler -/

theorem frames_data (parts : List Bytes) (sequence currentOffset : Nat) :
    (frames sequence currentOffset parts).map MediaChunk.data = parts := by
  induction parts generalizing sequence currentOffset with
  | nil => rfl
  | cons part rest ih => exact congrArg (part :: ·) (ih _ _)

/-- A chunk is the last one of a range exactly if nothing of it is left. -/
theorem Cuts.isLast {m : MediaManifest} {offset stop idx last k : Nat} {pieces parts : List Bytes}
    (h : Cuts m offset stop (idx + 1) (pieces.take k) parts) (hk : k ≤ pieces.length)
    (hcount : idx + (k + 1) = last + 1) : decide (idx = last) = parts.isEmpty := by
  have hlength := h.length
  rw [List.length_take, Nat.min_eq_left hk] at hlength
  cases parts with
  | nil => exact decide_eq_true (by simp only [List.length_nil] at hlength; omega)
  | cons => exact decide_eq_false (by simp only [List.length_cons] at hlength; omega)

/-- The parts that `stream_media` sends of an object. The sum of offset and length may wrap, and then none is
sent, unless it wraps to 0 and the last chunk of all is the last one of the range. -/
inductive SentParts (m : MediaManifest) (d : Bytes) (offset length : Nat) : List Bytes → Prop where
  | outside (hoff : d.length ≤ offset) : SentParts m d offset length []
  | wrapped (hoff : offset < d.length) (hpos : 0 < rangeEnd m.totalSize offset length)
    (hstop : rangeEnd m.totalSize offset length < offset) : SentParts m d offset length []
  | inside {k : Nat} {parts : List Bytes} (hoff : offset < d.length)
    (hk : m.startChunkIdx offset + k
      = min (m.endChunkIdx (rangeEnd m.totalSize offset length)) (m.chunks.length - 1) + 1)
    (hcount : m.startChunkIdx offset + k ≤ m.chunks.length)
    (hcuts : Cuts m offset (rangeEnd m.totalSize offset length) (m.startChunkIdx offset)
      (((Slices.slices m.chunkSize d).drop (m.startChunkIdx offset)).take k) parts) :
    SentParts m d offset length parts

theorem Describes.length_chunks {m : MediaManifest} {d : Bytes} (hd : Describes X D m d) :
    m.chunks.length = (Slices.slices m.chunkSize d).length := by rw [hd.chunks, List.length_map]

theorem RangeParts.sent {m : MediaManifest} {d : Bytes} (hd : Describes X D m d) {offset length : Nat}
    {parts : List Bytes} (h : RangeParts m d offset length parts) : SentParts m d offset length parts := by
  cases h with
  | outside hoff => exact .outside hoff
  | @inside k _ hoff hk hlt hin hcuts =>
    rw [← Slices.drop_slices hd.size] at hcuts
    exact .inside hoff (by omega) (by omega) hcuts

section
variable {m : MediaManifest} {d : Bytes} {offset : Nat} (hn : 0 < m.chunkSize) (h64 : d.length < 2 ^ 64)
include hn h64

/-- A chunk is cut at its start only if the range goes to the end of the object or its end has wrapped to 0. -/
theorem chunkPart_wrapped (hchunk : m.chunkSize < 2 ^ 64) {idx : Nat} {piece : Bytes}
    (hpiece : (Slices.slices m.chunkSize d)[idx]? = some piece) :
    m.chunkPart offset 0 idx piece = m.chunkPart offset d.length idx piece := by
  obtain ⟨hidx, rfl⟩ := Slices.getElem?_slices hn hpiece
  have hlen : ((d.drop (idx * m.chunkSize)).take m.chunkSize).length ≤ d.length - idx * m.chunkSize := by
    rw [List.length_take, List.length_drop]
    exact Nat.min_le_right _ _
  have hend : ∀ stop, stop = 0 ∧ idx = m.endChunkIdx stop ∨ stop = d.length →
      ((d.drop (idx * m.chunkSize)).take m.chunkSize).length ≤ wrappingSub stop (idx * m.chunkSize) := by
    rintro stop (⟨rfl, hlast⟩ | rfl)
    · -- the last index that 64 bits allow is not 0
      have hpos : 0 < idx * m.chunkSize := by
        refine Nat.mul_pos (hlast ▸ Nat.div_pos ?_ hn) hn
        rw [wrappingSub, if_neg (by omega)]
        omega
      rw [wrappingSub, if_neg (by omega)]
      omega
    · rw [wrappingSub_le (Nat.le_of_lt hidx)]
      exact hlen
  unfold MediaManifest.chunkPart
  dsimp only
  congr 1
  split_ifs with h0 h1 h1
  · rw [Nat.min_eq_right (hend 0 (.inl ⟨rfl, h0⟩)), Nat.min_eq_right (hend _ (.inr rfl))]
  · rw [Nat.min_eq_right (hend 0 (.inl ⟨rfl, h0⟩)), Nat.min_self]
  · rw [Nat.min_self, Nat.min_eq_right (hend _ (.inr rfl))]
  · rfl

theorem Cuts.wrapped (hchunk : m.chunkSize < 2 ^ 64) {idx : Nat} {pieces parts : List Bytes}
    (h : Cuts m offset d.length idx pieces parts)
    (hpieces : pieces <+: (Slices.slices m.chunkSize d).drop idx) : Cuts m offset 0 idx pieces parts := by
  induction h with
  | nil idx => exact .nil idx
  | @cons idx piece part pieces parts hpart h ih =>
    obtain ⟨rest, hrest⟩ := hpieces
    have hpiece : (Slices.slices m.chunkSize d)[idx]? = some piece := by
      rw [← List.head?_drop, ← hrest]
      rfl
    refine .cons ((chunkPart_wrapped hn h64 hchunk hpiece).trans hpart) (ih ⟨rest, ?_⟩)
    rw [← List.drop_drop, ← hrest]
    rfl

end

/-- A slice that ends before it starts. -/
theorem chunkPart_refused {m : MediaManifest} {offset stop idx : Nat} (hn : 0 < m.chunkSize)
    (hpos : 0 < stop) (hstop : stop < offset) (hidx : idx = m.startChunkIdx offset)
    (hend : idx ≤ m.endChunkIdx stop) (piece : Bytes) :
    ∃ message, m.chunkPart offset stop idx piece = .error (.panic message) := by
  have hlast : m.endChunkIdx stop = (stop - 1) / m.chunkSize := by
    rw [MediaManifest.endChunkIdx, wrappingSub_le (by omega)]
  have hsame : idx = m.endChunkIdx stop := by
    refine Nat.le_antisymm hend ?_
    rw [hlast, hidx, MediaManifest.startChunkIdx]
    exact Nat.div_le_div_right (by omega)
  have hbegin : idx * m.chunkSize ≤ stop - 1 := (Nat.le_div_iff_mul_le hn).1 (hlast ▸ hend)
  unfold MediaManifest.chunkPart
  dsimp only
  rw [if_pos hidx, if_pos hsame, wrappingSub_le (by omega), sliceOf, if_pos (by omega)]
  exact ⟨_, rfl⟩

/-- An object ends with its last chunk. -/
theorem Describes.count_chunks {m : MediaManifest} {d : Bytes} (hd : Describes X D m d) (hne : 0 < d.length) :
    m.chunks.length ≤ m.endChunkIdx d.length + 1 := by
  have hlast : m.endChunkIdx d.length = (d.length - 1) / m.chunkSize := by
    rw [MediaManifest.endChunkIdx, wrappingSub_le (by omega)]
  by_cases hnone : m.chunks.length = 0
  · omega
  have hbefore := (Slices.lt_length_slices hd.size (m.chunks.length - 1) d).1
    (by rw [← hd.length_chunks]; omega)
  have hdiv : m.chunks.length - 1 ≤ (d.length - 1) / m.chunkSize :=
    (Nat.le_div_iff_mul_le hd.size).2 (by omega)
  omega

/-- The sum of offset and length has wrapped to 0: all of the object from the offset on is sent. -/
theorem Describes.sentParts_zero {m : MediaManifest} {d : Bytes} (hd : Describes X D m d)
    (h64 : d.length < 2 ^ 64) (hchunk : m.chunkSize < 2 ^ 64) {offset length : Nat}
    (hoffset : offset < d.length) (hzero : rangeEnd m.totalSize offset length = 0) :
    SentParts m d offset length (rangePieces m.chunkSize d offset 0) := by
  obtain ⟨k, hk, -, hin, hcuts⟩ := hd.cuts (show offset + 0 < 2 ^ 64 by omega) hoffset
  rw [rangeEnd, if_pos rfl, hd.total] at hk hin hcuts
  have hcount := hd.count_chunks (by omega)
  have hafter : m.endChunkIdx d.length ≤ m.endChunkIdx 0 := by
    rw [MediaManifest.endChunkIdx, wrappingSub_le (by omega), MediaManifest.endChunkIdx, wrappingSub,
      if_neg (by omega)]
    exact Nat.div_le_div_right (by omega)
  rw [← Slices.drop_slices hd.size] at hcuts
  refine .inside (k := k) hoffset (by rw [hzero]; omega) (by omega) ?_
  rw [hzero]
  exact hcuts.wrapped hd.size h64 hchunk (List.take_prefix _ _)

/-- **What is sent** for any offset and length: the range in pieces, unless its end is after 2^64. -/
theorem Describes.sentParts {m : MediaManifest} {d : Bytes} (hd : Describes X D m d)
    (h64 : d.length < 2 ^ 64) (hchunk : m.chunkSize < 2 ^ 64) {offset length : Nat}
    (hoffset : offset < 2 ^ 64) (hlength : length < 2 ^ 64) :
    SentParts m d offset length
      (if 2 ^ 64 < offset + length then [] else rangePieces m.chunkSize d offset length) := by
  by_cases hlen : offset + length < 2 ^ 64
  · rw [if_neg (by omega)]
    exact (hd.rangeParts hlen).sent hd
  by_cases hoff : d.length ≤ offset
  · rw [rangePieces, range_of_le hoff, Slices.slicesAfter_nil, ite_self]
    exact .outside hoff
  have hstop : rangeEnd m.totalSize offset length = offset + length - 2 ^ 64 := by
    rw [rangeEnd, if_neg (by omega), hd.total, Nat.mod_eq_sub_mod (by omega), Nat.mod_eq_of_lt (by omega)]
    omega
  split_ifs with hwrap
  · exact .wrapped (by omega) (by omega) (by omega)
  · -- the sum is 2^64
    have hwhole : range d offset length = range d offset 0 := by
      rw [range, range, if_neg (by omega), if_pos rfl, List.take_of_length_le (by omega), List.take_length]
    rw [rangePieces, hwhole, ← rangePieces]
    exact hd.sentParts_zero h64 hchunk (by omega) (by omega)

section
variable (hinj : Set.InjOn X.sha256 D)
include hinj

/-- A chunk comes out the same from the cache and from storage. -/
theorem does_cachedChunk {cache : ChunkCache} (hcache : Cached X D cache) {p : Bytes} (hp : p ∈ D)
    (hread : Does (lens X logged) (BlobStore.readChunk X (ChunkId.fromData X p)) c (.ok p) c) :
    ∃ cache', Does (lens X logged) (cachedChunk X cache (ChunkId.fromData X p)) c
      (.ok (.ok p, cache')) c ∧ Cached X D cache' := by
  have hget := hcache.get (ChunkId.fromData X p)
  have hgenuine : ∀ {data}, (cache.get (ChunkId.fromData X p)).1 = some data → data = p := by
    intro data hdata
    obtain ⟨hd, hid⟩ := hcache.genuine hdata
    exact hinj hd hp (congrArg ChunkId.bytes hid.symm)
  unfold cachedChunk
  cases hres : cache.get (ChunkId.fromData X p) with
  | mk found cache1 =>
    rw [hres] at hget hgenuine
    cases found with
    | some data =>
      cases hgenuine rfl
      exact ⟨cache1, Does.pure _, hget⟩
    | none =>
      obtain ⟨cache2, hins, hcache2⟩ := hget.step (.insert (ChunkId.fromData X p) p) fun id data h => by
        cases h
        exact ⟨hp, rfl⟩
      refine ⟨cache2, Does.bind (does_attempt hread) ?_, hcache2⟩
      dsimp only
      rw [show cache1.insert (ChunkId.fromData X p) p = .ok cache2 from hins]
      exact Does.pure _

theorem does_sendChunks {m : MediaManifest} {offset stop last : Nat} (k idx sequence currentOffset : Nat)
    {pieces parts : List Bytes} {cache : ChunkCache} (hcache : Cached X D cache)
    (hD : ∀ p ∈ pieces, p ∈ D) (hread : Readable X logged c pieces) (hk : idx + k = last + 1)
    (hcount : k ≤ pieces.length) (hcuts : Cuts m offset stop idx (pieces.take k) parts) :
    ∃ cache', Does (lens X logged) (sendChunks X m offset stop last idx sequence currentOffset
        (pieces.map (ChunkId.fromData X)) cache) c
      (.ok ((frames sequence currentOffset parts).map .ok, cache')) c := by
  induction k generalizing idx sequence currentOffset pieces parts cache with
  | zero =>
    rw [List.take_zero] at hcuts
    cases hcuts
    refine ⟨cache, ?_⟩
    cases pieces with
    | nil => exact Does.pure _
    | cons p ps =>
      rw [List.map_cons, sendChunks, if_pos (by omega)]
      exact Does.pure _
  | succ k ih =>
    cases pieces with
    | nil => exact absurd hcount (Nat.not_succ_le_zero k)
    | cons p ps =>
      rw [List.take_succ_cons] at hcuts
      cases hcuts with
      | @cons _ _ part _ rest hpart h =>
        have hps : k ≤ ps.length := Nat.le_of_succ_le_succ hcount
        obtain ⟨cache1, hchunk, hcache1⟩ :=
          does_cachedChunk hinj hcache (hD p List.mem_cons_self) (hread p List.mem_cons_self)
        obtain ⟨cache2, hrest⟩ := ih (idx + 1) ((sequence + 1) % 2 ^ 32)
          (currentOffset + part.length) hcache1 (fun q hq => hD q (List.mem_cons_of_mem _ hq))
          (fun q hq => hread q (List.mem_cons_of_mem _ hq)) (by omega) hps h
        refine ⟨cache2, ?_⟩
        rw [List.map_cons, sendChunks, if_neg (by omega)]
        refine Does.bind hchunk ?_
        dsimp only
        rw [hpart]
        refine Does.bind hrest ?_
        rw [h.isLast hps hk]
        exact Does.pure _

/-- Where the end of a range has wrapped to before its start, the first slice is refused. -/
theorem does_sendChunks_wrapped {m : MediaManifest} {offset stop last idx : Nat} (hn : 0 < m.chunkSize)
    (hpos : 0 < stop) (hstop : stop < offset) {pieces : List Bytes} {cache : ChunkCache}
    (hcache : Cached X D cache) (hidx : idx = m.startChunkIdx offset) (hlast : last ≤ m.endChunkIdx stop)
    (hD : ∀ p ∈ pieces, p ∈ D) (hread : Readable X logged c pieces) :
    ∃ cache', Does (lens X logged) (sendChunks X m offset stop last idx 0 offset
      (pieces.map (ChunkId.fromData X)) cache) c (.ok ([], cache')) c := by
  cases pieces with
  | nil => exact ⟨cache, Does.pure _⟩
  | cons p ps =>
    rw [List.map_cons, sendChunks]
    by_cases hbefore : last < idx
    · rw [if_pos hbefore]
      exact ⟨cache, Does.pure _⟩
    · obtain ⟨cache1, hchunk, -⟩ :=
        does_cachedChunk hinj hcache (hD p List.mem_cons_self) (hread p List.mem_cons_self)
      refine ⟨cache1, ?_⟩
      rw [if_neg hbefore]
      refine Does.bind hchunk ?_
      dsimp only
      obtain ⟨message, hpart⟩ := chunkPart_refused hn hpos hstop hidx (show idx ≤ _ by omega) p
      rw [hpart]
      exact Does.pure _

/-- What `stream_media` sends are the parts of the range. -/
theorem does_streamMedia {key : String} {m : MediaManifest} {d : Bytes}
    (hm : c.index.manifests[key]? = some m) (hd : Describes X D m d)
    (hread : Readable X logged c (Slices.slices m.chunkSize d)) {offset length : Nat}
    {parts : List Bytes} (h : SentParts m d offset length parts) {cache : ChunkCache}
    (hcache : Cached X D cache) :
    ∃ cache', Does (lens X logged) (streamMedia X ⟨.ok (), key, offset, length⟩ cache) c
      (.ok (.ok ((frames 0 offset parts).map .ok), cache')) c := by
  have hsize := hd.size
  have hcount := hd.length_chunks
  -- unless it is outside, the task is run from the first chunk of the range on
  have hsend : ∀ {sent cache'}, offset < d.length →
      Does (lens X logged) (sendChunks X m offset (rangeEnd m.totalSize offset length)
        (min (m.endChunkIdx (rangeEnd m.totalSize offset length)) (m.chunks.length - 1))
        (m.startChunkIdx offset) 0 offset (((Slices.slices m.chunkSize d).drop (m.startChunkIdx offset)).map
          (ChunkId.fromData X)) cache) c (.ok (sent, cache')) c →
      Does (lens X logged) (streamMedia X ⟨.ok (), key, offset, length⟩ cache) c
        (.ok (.ok sent, cache')) c := by
    intro sent cache' hoff hsent
    have hpos : 0 < m.chunks.length := by
      rw [hcount, Slices.lt_length_slices hsize]
      omega
    refine Does.bind does_getManifest ?_
    rw [hm]
    dsimp only
    rw [if_neg (by rw [hd.total]; omega), if_neg (by omega), wrappingSub_le (by omega), hd.drop_chunks,
      ← Slices.drop_slices hsize]
    exact Does.bind hsent (Does.pure _)
  have hknown : ∀ p ∈ (Slices.slices m.chunkSize d).drop (m.startChunkIdx offset), p ∈ D := fun p hp =>
    hd.known p (List.mem_of_mem_drop hp)
  have hdropped : Readable X logged c ((Slices.slices m.chunkSize d).drop (m.startChunkIdx offset)) :=
    fun p hp => hread p (List.mem_of_mem_drop hp)
  cases h with
  | outside hoff =>
    refine ⟨cache, Does.bind does_getManifest ?_⟩
    rw [hm]
    dsimp only
    rw [if_pos (by rw [hd.total]; exact hoff)]
    exact Does.pure _
  | wrapped hoff hpos hstop =>
    have hlast : min (m.endChunkIdx (rangeEnd m.totalSize offset length)) (m.chunks.length - 1) ≤
        m.endChunkIdx (rangeEnd m.totalSize offset length) := Nat.min_le_left _ _
    obtain ⟨cache', hsent⟩ := does_sendChunks_wrapped hinj hsize hpos hstop hcache rfl hlast hknown hdropped
    exact ⟨cache', hsend hoff hsent⟩
  | inside hoff hk hin hcuts =>
    obtain ⟨cache', hsent⟩ := does_sendChunks hinj _ _ 0 offset hcache hknown hdropped hk
      (by rw [List.length_drop]; omega) hcuts
    exact ⟨cache', hsend hoff hsent⟩

end

/-! ## Runs of the server -/

/-- What is read of a chunk is what its file holds. -/
theorem readChunk_file {st st' : Store} {id : ChunkId} {data : Bytes}
    (hread : BlobStore.readChunk X id st = .ok data st') :
    ∃ f, st.files[id.toHex]? = some f ∧ decodeChunk X f.bytes = .ok data := by
  simp only [BlobStore.readChunk, run_bind, run_get] at hread
  cases hf : st.files[id.toHex]? with
  | none => rw [hf] at hread; cases hread
  | some f =>
    rw [hf] at hread
    cases hdec : decodeChunk X f.bytes with
    | error e => simp only [hdec] at hread; cases hread
    | ok d =>
      simp only [hdec] at hread
      cases hread
      exact ⟨f, rfl, hdec⟩

/-- A chunk file that can be read has data of its id. -/
theorem Sound.genuine {need : ChunkId → Int} {st st' : Store} (hs : Sound X D st.view need)
    {id : ChunkId} {data : Bytes} (hread : BlobStore.readChunk X id st = .ok data st') :
    Genuine X D id data := by
  obtain ⟨f, hf, hdec⟩ := readChunk_file hread
  obtain ⟨d, hd, hlen, hhex, hbytes⟩ := hs.encoded id.toHex f hf
  rw [hbytes, decodeChunk_encodeChunk X (by simp only [chunkHeaderSize, isizeMax] at *; omega)] at hdec
  cases hdec
  exact ⟨hd, ChunkId.toHex_injective hhex⟩

theorem Server.withCache_cached {s : Server} {result : Except Fail ChunkCache}
    (h : ∃ cache, result = .ok cache ∧ Cached X D cache) : Cached X D (s.withCache result).cache := by
  obtain ⟨cache, rfl, hcache⟩ := h
  exact hcache

theorem Server.withCache_world (s : Server) (result : Except Fail ChunkCache) :
    (s.withCache result).world = s.world := by
  cases result <;> rfl

/-- What the handlers do with the cache keeps it genuine and leaves the world as it is. -/
theorem Server.step_cache {need : ChunkId → Int} {s : Server} (hs : Sound X D s.world.store.view need)
    (hcache : Cached X D s.cache) (action : ServerAction) :
    Cached X D (s.step X action).cache ∧
      (action.call? = none → (s.step X action).world = s.world) := by
  cases action with
  | call call => exact ⟨hcache, nofun⟩
  | lookup id => exact ⟨hcache.get id, fun _ => rfl⟩
  | load id =>
    simp only [Server.step]
    cases hread : BlobStore.readChunk X id s.world.store with
    | error e st => exact ⟨hcache, fun _ => rfl⟩
    | ok data st =>
      have hins := hcache.step (.insert id data) fun id' data' h => by
        cases h
        exact hs.genuine hread
      exact ⟨withCache_cached hins, fun _ => withCache_world _ _⟩
  | invalidate id =>
    have hinv := hcache.step (.invalidate id) nofun
    exact ⟨withCache_cached hinv, fun _ => withCache_world _ _⟩

/-- **Runs of the server.** The world shows the abstract state after the calls, and the cache is genuine. -/
theorem Server.run_sim (hX : X.Lawful) (hinj : Set.InjOn X.sha256 D) :
    ∀ (actions : List ServerAction) {s : Server} {spec : Spec},
      Sim X D s.world spec → Cached X D s.cache →
      (∀ call ∈ actions.filterMap ServerAction.call?, call.Sized) →
      pieces (spec.receivedIn (actions.filterMap ServerAction.call?)) ⊆ D →
      Sim X D (s.run X actions).world (spec.run (actions.filterMap ServerAction.call?)).1 ∧
        Cached X D (s.run X actions).cache
  | [], _, _, h, hcache, _, _ => ⟨h, hcache⟩
  | action :: actions, s, spec, h, hcache, hsized, hD => by
    obtain ⟨hcache', hworld⟩ := Server.step_cache h.sound hcache action
    cases hcall : action.call? with
    | none =>
      rw [List.filterMap_cons_none hcall] at hsized hD ⊢
      exact Server.run_sim hX hinj actions (hworld hcall ▸ h) hcache' hsized hD
    | some call =>
      obtain rfl : action = .call call := by
        cases action <;> cases hcall
        rfl
      rw [List.filterMap_cons_some hcall] at hsized hD ⊢
      have hstep := (h.step hX hinj call (hsized call List.mem_cons_self) fun p hp =>
        hD ⟨_, List.mem_cons_self, hp⟩).1
      exact Server.run_sim hX hinj actions hstep hcache'
        (fun c hc => hsized c (List.mem_cons_of_mem _ hc))
        ((pieces_mono (List.subset_cons_self _ _)).trans hD)

/-- A committed object of the server, with contents `d`. -/
structure Server.Serves (X : Crates) (D : Set Bytes) (s : Server) (key : String) (m : MediaManifest)
    (d : Bytes) : Prop where
  manifest : s.world.store.view.index.manifests[key]? = some m
  describes : Describes X D m d
  readable : Readable X true s.world.store.view (Slices.slices m.chunkSize d)
  cached : Cached X D s.cache
  sound : Sound X D s.world.store.view (needOf s.world.sessions)
  healthy : (lens X true).healthy s.world.store

theorem Server.Serves.returned {s : Server} {key : String} {m : MediaManifest} {d : Bytes}
    (h : s.Serves X D key m d) {α : Type} {x : M α} {r : Except Fail α}
    (hx : Does (lens X true) x s.world.store.view r s.world.store.view) :
    Effects.returned (x s.world.store) = r := by
  obtain ⟨st, hrun, -⟩ := hx s.world.store h.healthy rfl
  rw [hrun, returned_result]

section
variable (hX : X.Lawful) (engine : StorageEngine) (dataDir : String) (maxSize : Nat)
  (actions : List ServerAction) (hsize : 0 < engine.chunkSize)
  (hsized : ∀ call ∈ actions.filterMap ServerAction.call?, call.Sized)
  (hfree : CollisionFree X engine (actions.filterMap ServerAction.call?))
include hX hsize hsized hfree

theorem Server.start_sim :
    Sim X (pieces ((Spec.fresh engine).receivedIn (actions.filterMap ServerAction.call?)))
      ((Server.start engine dataDir maxSize).run X actions).world
      ((Spec.fresh engine).run (actions.filterMap ServerAction.call?)).1 ∧
    Cached X (pieces ((Spec.fresh engine).receivedIn (actions.filterMap ServerAction.call?)))
      ((Server.start engine dataDir maxSize).run X actions).cache :=
  Server.run_sim hX hfree actions (Sim.fresh hsize dataDir) (Cached.new maxSize) hsized subset_rfl

/-- Every manifest of a server is that of a committed object. -/
theorem Server.serves_manifest {key : String} {m : MediaManifest}
    (hm : ((Server.start engine dataDir maxSize).run X actions).world.store.index.manifests[key]?
      = some m) :
    ∃ d, ((Spec.fresh engine).run (actions.filterMap ServerAction.call?)).1.objects[key]? = some d ∧
      ((Server.start engine dataDir maxSize).run X actions).Serves X
        (pieces ((Spec.fresh engine).receivedIn (actions.filterMap ServerAction.call?))) key m d := by
  obtain ⟨h, hcache⟩ := Server.start_sim hX engine dataDir maxSize actions hsize hsized hfree
  obtain ⟨d, hobject, hd⟩ := h.objects.some_left hm
  exact ⟨d, hobject, hm, hd, hd.readable h.sound (needOf_nonneg _) hfree hm, hcache, h.sound, h.healthy⟩

theorem Server.serves_object {key : String} {d : Bytes} (hobject : ((Spec.fresh engine).run
      (actions.filterMap ServerAction.call?)).1.objects[key]? = some d) :
    ∃ m, ((Server.start engine dataDir maxSize).run X actions).Serves X
        (pieces ((Spec.fresh engine).receivedIn (actions.filterMap ServerAction.call?))) key m d := by
  obtain ⟨h, hcache⟩ := Server.start_sim hX engine dataDir maxSize actions hsize hsized hfree
  obtain ⟨m, hm, hd⟩ := h.objects.some hobject
  exact ⟨m, hm, hd, hd.readable h.sound (needOf_nonneg _) hfree hm, hcache, h.sound, h.healthy⟩

end

/-- **All range readers agree with the plain slice.** Whatever calls and handlers ran before, for an
object with contents `d`, `read_range` returns the range of `d`, and the pieces that `stream` and
`stream_media` send make it up; `read` is the case of offset and length 0. -/
theorem range_readers_agree (hX : X.Lawful) (engine : StorageEngine) (dataDir : String)
    (maxSize : Nat) (actions : List ServerAction) (hsize : 0 < engine.chunkSize)
    (hsized : ∀ call ∈ actions.filterMap ServerAction.call?, call.Sized)
    (hfree : CollisionFree X engine (actions.filterMap ServerAction.call?)) (key : String) (d : Bytes)
    (hobject : ((Spec.fresh engine).run
      (actions.filterMap ServerAction.call?)).1.objects[key]? = some d)
    (offset length : Nat) (hlen : offset + length < 2 ^ 64) :
    let s := (Server.start engine dataDir maxSize).run X actions
    returned (StorageEngine.readRange X key offset length s.world.store)
      = .ok (range d offset length) ∧
    (∃ pieces : List Bytes,
      returned (StorageEngine.stream X key offset length s.world.store) = .ok (pieces.map .ok) ∧
      pieces.flatten = range d offset length) ∧
    (∃ (chunks : List MediaChunk) (cache : ChunkCache),
      returned (streamMedia X ⟨.ok (), key, offset, length⟩ s.cache s.world.store)
        = .ok (.ok (chunks.map .ok), cache) ∧
      (chunks.map MediaChunk.data).flatten = range d offset length) ∧
    returned (s.world.engine.read X key s.world.store) = .ok (range d 0 0) := by
  intro s
  obtain ⟨m, h⟩ := Server.serves_object hX engine dataDir maxSize actions hsize hsized hfree hobject
  have hcross := h.describes.rangeParts hlen
  have hparts := flatten_rangePieces h.describes.size d offset length
  generalize rangePieces m.chunkSize d offset length = parts at hcross hparts
  obtain ⟨cache', hmedia⟩ :=
    does_streamMedia hfree h.manifest h.describes h.readable (hcross.sent h.describes) h.cached
  refine ⟨hparts ▸ h.returned (does_readRange h.manifest h.describes h.readable hcross),
    ⟨parts, h.returned (does_stream h.manifest h.describes h.readable hcross), hparts⟩,
    ⟨frames 0 offset parts, cache', h.returned hmedia, ?_⟩, ?_⟩
  · rw [frames_data, hparts]
  rw [range, if_pos rfl, List.take_length, List.drop_zero]
  exact h.returned (does_read _ h.sound (needOf_nonneg _) hfree h.manifest h.describes)

/-- An object of four chunks, the first one in the cache, under an engine opened with another chunk
size. -/
def warmActions : List ServerAction :=
  [.call (.store "a" [1, 2, 3, 1, 4, 1, 5] "" []), .load (ChunkId.fromData .reference [1, 2]),
    .call (.reopen ⟨1, 0, true⟩ .none)]

theorem range_readers_agree_warm :
    let s := (Server.start ⟨2, 0, false⟩ "data" 100).run .reference warmActions
    returned (StorageEngine.readRange .reference "a" 1 5 s.world.store)
      = .ok (range [1, 2, 3, 1, 4, 1, 5] 1 5) ∧
    (∃ pieces : List Bytes,
      returned (StorageEngine.stream .reference "a" 1 5 s.world.store) = .ok (pieces.map .ok) ∧
      pieces.flatten = range [1, 2, 3, 1, 4, 1, 5] 1 5) ∧
    (∃ (chunks : List MediaChunk) (cache : ChunkCache),
      returned (streamMedia .reference ⟨.ok (), "a", 1, 5⟩ s.cache s.world.store)
        = .ok (.ok (chunks.map .ok), cache) ∧
      (chunks.map MediaChunk.data).flatten = range [1, 2, 3, 1, 4, 1, 5] 1 5) ∧
    returned (s.world.engine.read .reference "a" s.world.store)
      = .ok (range [1, 2, 3, 1, 4, 1, 5] 0 0) := by
  have hfree : CollisionFree .reference ⟨2, 0, false⟩ (warmActions.filterMap ServerAction.call?) :=
    reference_free (by decide +kernel)
  have hsized : ∀ call ∈ warmActions.filterMap ServerAction.call?, call.Sized := by
    simp [warmActions, ServerAction.call?, Call.Sized]
  exact range_readers_agree Crates.reference_lawful ⟨2, 0, false⟩ "data" 100 warmActions (by decide)
    hsized hfree "a" [1, 2, 3, 1, 4, 1, 5] (by decide +kernel) 1 5 (by decide)

end KaidaDB
