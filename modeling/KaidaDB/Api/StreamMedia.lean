import KaidaDB.Api.Upload
import KaidaDB.Cache.ChunkCache
import KaidaDB.Storage.Range

/-!
# Streaming an object

The gRPC handler `stream_media`, which takes chunks from the cache where it has them and puts into it
those it reads, and `Server`: a world with the cache that the handlers of both APIs share. Whatever
handlers run on it, the cache changes only by lookups, by taking in chunks just read (`load`) and by
invalidations.
-/

namespace KaidaDB

variable (X : Crates)

structure StreamMedia where
  /-- What `check_auth` returns for the request. -/
  auth : Except Status Unit
  key : String
  offset : Nat
  length : Nat

structure MediaChunk where
  sequence : Nat
  data : Bytes
  offset : Nat
  isLast : Bool
deriving DecidableEq, Repr

/-- A chunk from the cache, or else from storage. -/
def cachedChunk (cache : ChunkCache) (chunkId : ChunkId) : M (Except Fail Bytes × ChunkCache) := do
  match cache.get chunkId with
  | (some cached, cache) => return (.ok cached, cache)
  | (none, cache) =>
    match ← attempt (BlobStore.readChunk X chunkId) with
    | .error e => return (.error e, cache)
    | .ok data =>
      match cache.insert chunkId data with
      | .ok cache => return (.ok data, cache)
      | .error e => return (.error e, cache)

/-- The task of `stream_media`, over the chunks from `idx` on: what it sends, and the cache. The chunk
after the last one is an index out of bounds; `sequence` is a `u32`. -/
def sendChunks (m : MediaManifest) (offset stop last : Nat) :
    Nat → Nat → Nat → List ChunkId → ChunkCache → M (List (Except Status MediaChunk) × ChunkCache)
  | _, _, _, [], cache => pure ([], cache)
  | idx, sequence, currentOffset, chunkId :: rest, cache => do
    if last < idx then return ([], cache)
    match ← cachedChunk X cache chunkId with
    | (.error (.error e), cache) => return ([.error (.mk .internal e.display)], cache)
    | (.error _, cache) => return ([], cache)
    | (.ok chunkData, cache) =>
      match m.chunkPart offset stop idx chunkData with
      | .error _ => return ([], cache)
      | .ok part =>
        let chunk : MediaChunk := ⟨sequence, part, currentOffset, idx = last⟩
        let (sent, cache) ← sendChunks m offset stop last (idx + 1) ((sequence + 1) % 2 ^ 32)
          (currentOffset + part.length) rest cache
        return (.ok chunk :: sent, cache)

/-- `stream_media`: the status it returns, or what the client receives; and the cache. -/
def streamMedia (request : StreamMedia) (cache : ChunkCache) :
    M (Except Status (List (Except Status MediaChunk)) × ChunkCache) := do
  match request.auth with
  | .error status => return (.error status, cache)
  | .ok () =>
    match ← Index.getManifest request.key with
    | none => return (.error (.mk .notFound s!"key not found: {request.key}"), cache)
    | some manifest =>
      let stop := rangeEnd manifest.totalSize request.offset request.length
      if manifest.totalSize ≤ request.offset then return (.ok [], cache)
      if manifest.chunkSize = 0 then throw (.panic "attempt to divide by zero")
      let start := manifest.startChunkIdx request.offset
      let last := min (manifest.endChunkIdx stop) (wrappingSub manifest.chunks.length 1)
      let (sent, cache) ← sendChunks X manifest request.offset stop last start 0 request.offset
        (manifest.chunks.drop start) cache
      return (.ok sent, cache)

/-- The messages that carry the parts: consecutive sequence numbers and offsets, the last one marked. -/
def frames : Nat → Nat → List Bytes → List MediaChunk
  | _, _, [] => []
  | sequence, currentOffset, part :: rest =>
    ⟨sequence, part, currentOffset, rest.isEmpty⟩ ::
      frames ((sequence + 1) % 2 ^ 32) (currentOffset + part.length) rest

/-! ## The server -/

structure Server where
  world : World
  cache : ChunkCache

inductive ServerAction where
  | call (call : Call)
  | lookup (id : ChunkId)
  /-- A chunk is read and put into the cache. -/
  | load (id : ChunkId)
  | invalidate (id : ChunkId)
deriving DecidableEq, Repr

namespace Server

/-- The cache after a call on it; a panic would leave it as it was. -/
def withCache (s : Server) (result : Except Fail ChunkCache) : Server :=
  match result with
  | .ok cache => { s with cache }
  | .error _ => s

def step (s : Server) : ServerAction → Server
  | .call call => { s with world := (s.world.step X call).1 }
  | .lookup id => { s with cache := (s.cache.get id).2 }
  | .load id =>
    match BlobStore.readChunk X id s.world.store with
    | .ok data _ => s.withCache (s.cache.insert id data)
    | .error _ _ => s
  | .invalidate id => s.withCache (s.cache.invalidate id)

def run (s : Server) : List ServerAction → Server
  | [] => s
  | action :: actions => (s.step X action).run actions

/-- An engine opened on an empty directory, and an empty cache. -/
def start (engine : StorageEngine) (dataDir : String) (maxSize : Nat) : Server :=
  ⟨.fresh engine dataDir (Stream'.const .ok), .new maxSize⟩

end Server

/-- The call of an action on the engine. -/
def ServerAction.call? : ServerAction → Option Call
  | call c => some c
  | _ => none

end KaidaDB
