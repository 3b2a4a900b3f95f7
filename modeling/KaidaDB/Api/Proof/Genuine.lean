import KaidaDB.Api.GetMedia
import KaidaDB.Api.Proof.StreamMedia
import KaidaDB.Lib.Reads

/-!
# What the handlers that read leave in the cache

Where every chunk that can be read is the one it is named after, they leave a genuine cache genuine, whatever
they are asked for and however they end. So it is on a sound store.
-/

namespace KaidaDB

open Effects

variable {X : Crates} {D : Set Bytes} {need : ChunkId → Int} {st : Store}

theorem reads_getManifest (key : String) :
    Reads (· = st.index.manifests[key]?) (Index.getManifest key) st := Reads.get_bind (Reads.pure rfl)

theorem reads_check {α : Type} (x : Except Fail α) : Reads (fun _ => True) (check x : M α) st := by
  cases x with
  | ok a => exact Reads.pure trivial
  | error e => exact Reads.throw e

/-- Reading a chunk depends on its file alone. -/
theorem reads_file {P : Bytes → Prop} {id : ChunkId}
    (h : ∀ f data, st.files[id.toHex]? = some f → decodeChunk X f.bytes = .ok data → P data) :
    Reads P (BlobStore.readChunk X id) st := by
  refine Reads.get_bind ?_
  cases hf : st.files[id.toHex]? with
  | none => exact Reads.throw _
  | some f =>
    dsimp only
    cases hdata : decodeChunk X f.bytes with
    | ok data => exact Reads.pure (h f data hf hdata)
    | error e => exact Reads.throw e

theorem Sound.reads (hs : Sound X D st.view need) (id : ChunkId) :
    Reads (Genuine X D id) (BlobStore.readChunk X id) st := by
  have hfile : Reads (fun _ => True) (BlobStore.readChunk X id) st := reads_file fun _ _ _ _ => trivial
  obtain ⟨r, hrun, -⟩ := hfile
  refine ⟨r, hrun, fun data hdata => ?_⟩
  subst hdata
  exact hs.genuine hrun

section
variable (hread : ∀ id, Reads (Genuine X D id) (BlobStore.readChunk X id) st)
include hread

variable {cache : ChunkCache} (hcache : Cached X D cache)
include hcache

/-- What the chunk of an id is read as, and the cache after that. -/
structure Looked (X : Crates) (D : Set Bytes) (id : ChunkId) (r : Except Fail Bytes × ChunkCache) : Prop where
  cached : Cached X D r.2
  genuine : ∀ data, r.1 = .ok data → Genuine X D id data

theorem returns_cachedChunk (id : ChunkId) : Returns (Looked X D id) (cachedChunk X cache id) st := by
  have hget := hcache.get id
  have hfound : ∀ data, (cache.get id).1 = some data → Genuine X D id data := fun _ => hcache.genuine
  unfold cachedChunk
  generalize cache.get id = r at hget hfound ⊢
  obtain ⟨found, cache1⟩ := r
  cases found with
  | some data => exact Returns.pure ⟨hget, fun data' h => by cases h; exact hfound data rfl⟩
  | none =>
    refine Returns.bind (Returns.caught (hread id)) fun r hr => ?_
    cases r with
    | error e => exact Returns.pure ⟨hget, nofun⟩
    | ok data =>
      obtain ⟨cache2, hinsert, hcache2⟩ := hget.step (.insert id data) fun id' data' h => by
        cases h
        exact hr data rfl
      dsimp only
      rw [show cache1.insert id data = .ok cache2 from hinsert]
      exact Returns.pure ⟨hcache2, fun data' h => by cases h; exact hr data rfl⟩

theorem reads_prefetch (chunks : List ChunkId) (count idx : Nat) :
    Reads (Cached X D) (prefetch X chunks count idx cache) st := by
  induction count generalizing idx cache with
  | zero => exact Reads.pure hcache
  | succ count ih =>
    refine Reads.bind (reads_check _) fun id _ => ?_
    refine Reads.bind (returns_cachedChunk hread hcache id).reads fun r hr => ?_
    obtain ⟨found, cache1⟩ := r
    rcases found with (e | _ | _) | data
    · exact ih hr.cached (idx + 1)
    · exact Reads.throw _
    · exact Reads.throw _
    · exact ih hr.cached (idx + 1)

theorem reads_sendBody (checks : Bool) (m : MediaManifest) (offset stop first last count idx : Nat) :
    Reads (fun r => Cached X D r.2.2) (sendBody X checks m offset stop first last count idx cache) st := by
  induction count generalizing idx cache with
  | zero => exact Reads.pure hcache
  | succ count ih =>
    rw [sendBody]
    cases chunkAt m.chunks idx with
    | error e => exact Reads.pure hcache
    | ok id =>
      refine Reads.bind (returns_cachedChunk hread hcache id).reads fun r hr => ?_
      obtain ⟨found, cache1⟩ := r
      rcases found with (e | _ | _) | data
      · exact Reads.pure hr.cached
      · exact Reads.pure hr.cached
      · exact Reads.pure hr.cached
      · dsimp only
        cases cutChunk checks m.chunkSize offset stop first last idx data with
        | error e => exact Reads.pure hr.cached
        | ok slice => exact Reads.bind (ih hr.cached (idx + 1)) fun r hr => Reads.pure hr

theorem reads_getMedia (checks : Bool) (request : GetMedia) :
    Reads (fun download => Cached X D download.cache) (getMedia X checks request cache) st := by
  refine Reads.bind (reads_getManifest _) fun found _ => ?_
  cases found with
  | none => exact Reads.pure hcache
  | some m =>
    dsimp only
    generalize parseRangeHeader request.range m.totalSize = parsed
    obtain ⟨offset, length, isRange⟩ := parsed
    refine Reads.bind (reads_check _) fun stop _ => ?_
    by_cases h0 : m.chunkSize = 0
    · rw [if_pos h0]
      exact Reads.throw _
    · rw [if_neg h0]
      refine Reads.bind (reads_check _) fun last _ => ?_
      refine Reads.bind (reads_prefetch hread hcache _ _ _) fun cache1 hcache1 => ?_
      refine Reads.bind (reads_sendBody hread hcache1 checks m _ _ _ _ _ _) fun sent hsent => ?_
      obtain ⟨body, panic, cache2⟩ := sent
      refine Reads.bind (reads_check _) fun headers _ => ?_
      by_cases htype : isHeaderValue m.contentType = true
      · rw [if_pos htype]
        exact Reads.pure hsent
      · rw [if_neg htype]
        exact Reads.pure hsent

theorem reads_sendChunks (m : MediaManifest) (offset stop last : Nat) (chunks : List ChunkId)
    (idx sequence currentOffset : Nat) :
    Reads (fun r => Cached X D r.2)
      (sendChunks X m offset stop last idx sequence currentOffset chunks cache) st := by
  induction chunks generalizing idx sequence currentOffset cache with
  | nil => exact Reads.pure hcache
  | cons id chunks ih =>
    rw [sendChunks]
    split_ifs
    · exact Reads.pure hcache
    · refine Reads.bind (returns_cachedChunk hread hcache id).reads fun r hr => ?_
      obtain ⟨found, cache1⟩ := r
      rcases found with (e | _ | _) | data
      · exact Reads.pure hr.cached
      · exact Reads.pure hr.cached
      · exact Reads.pure hr.cached
      · dsimp only
        cases m.chunkPart offset stop idx data with
        | error e => exact Reads.pure hr.cached
        | ok part => exact Reads.bind (ih hr.cached _ _ _) fun r hr => Reads.pure hr

theorem reads_streamMedia (request : StreamMedia) :
    Reads (fun r => Cached X D r.2) (streamMedia X request cache) st := by
  unfold streamMedia
  cases request.auth with
  | error status => exact Reads.pure hcache
  | ok u =>
    refine Reads.bind (reads_getManifest _) fun found _ => ?_
    cases found with
    | none => exact Reads.pure hcache
    | some m =>
      dsimp only
      split_ifs
      · exact Reads.pure hcache
      · exact Reads.throw _
      · exact Reads.bind (reads_sendChunks hread hcache m _ _ _ _ _ _ _) fun r hr => Reads.pure hr

end

end KaidaDB
