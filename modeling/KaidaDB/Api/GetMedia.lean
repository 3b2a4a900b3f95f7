import KaidaDB.Api.RangeHeader
import KaidaDB.Api.StreamMedia
import KaidaDB.Storage.RangeChecks

/-!
# Downloads over REST

`get_media`: the handler looks up the manifest, puts the first chunks of the range into the cache and
starts a task that sends the chunks one by one. `Download` is the response with what the task sends, and
how the task ended. The client stays connected and reads everything.
-/

namespace KaidaDB

variable (X : Crates)

structure GetMedia where
  rawKey : String
  /-- The headers, with lower-case names. -/
  headers : List (String × Bytes)
deriving DecidableEq, Repr

/-- `headers.get(header::RANGE)`. -/
def GetMedia.range (request : GetMedia) : Option Bytes :=
  (request.headers.find? fun h => h.1 = "range").map Prod.snd

inductive MediaResponse where
  | text (status : Nat) (body : String)
  /-- A body that is sent piece by piece; an error ends it. -/
  | stream (status : Nat) (headers : List (String × String)) (body : List (Except String Bytes))
deriving DecidableEq, Repr

structure Download where
  response : MediaResponse
  /-- The panic that ended the task, if one did. -/
  panic : Option Fail
  cache : ChunkCache

/-- What `HeaderValue` accepts: no control characters other than tab. -/
def isHeaderValue (s : String) : Bool :=
  (Utf8.encode s.toList).all fun b => b = 0x09 || (0x20 ≤ b && b ≠ 0x7f)

/-- `&chunks[idx]`. -/
def chunkAt (chunks : List ChunkId) (idx : Nat) : Except Fail ChunkId :=
  match chunks[idx]? with
  | some chunkId => .ok chunkId
  | none => .error (.panic s!"index out of bounds: the len is {chunks.length} but the index is {idx}")

/-- The loop that warms the cache, over as many chunks from `idx` on. -/
def prefetch (chunks : List ChunkId) : Nat → Nat → ChunkCache → M ChunkCache
  | 0, _, cache => pure cache
  | count + 1, idx, cache => do
    let chunkId ← check (chunkAt chunks idx)
    match ← cachedChunk X cache chunkId with
    | (.ok _, cache) => prefetch chunks count (idx + 1) cache
    -- a chunk that cannot be read is left to the task
    | (.error (.error _), cache) => prefetch chunks count (idx + 1) cache
    | (.error e, _) => throw e

/-- The task, over as many chunks from `idx` on: what it sends, the panic that ended it, and the cache. -/
def sendBody (checks : Bool) (m : MediaManifest) (offset stop first last : Nat) :
    Nat → Nat → ChunkCache → M (List (Except String Bytes) × Option Fail × ChunkCache)
  | 0, _, cache => pure ([], none, cache)
  | count + 1, idx, cache => do
    match chunkAt m.chunks idx with
    | .error e => return ([], some e, cache)
    | .ok chunkId =>
      match ← cachedChunk X cache chunkId with
      | (.error (.error e), cache) => return ([.error e.display], none, cache)
      | (.error e, cache) => return ([], some e, cache)
      | (.ok chunkData, cache) =>
        match cutChunk checks m.chunkSize offset stop first last idx chunkData with
        | .error e => return ([], some e, cache)
        | .ok slice =>
          let (sent, panic, cache) ← sendBody checks m offset stop first last count (idx + 1) cache
          return (.ok slice :: sent, panic, cache)

/-- The chunk that the last byte of a range lies in. -/
def lastIdx (checks : Bool) (chunkSize stop : Nat) : Except Fail Nat :=
  if stop = 0 then .ok 0
  else do
    let beforeStop ← subU64 checks stop 1
    return beforeStop / chunkSize

/-- The headers of a download. -/
def downloadHeaders (checks : Bool) (m : MediaManifest) (offset stop : Nat) (isRange : Bool) :
    Except Fail (List (String × String)) := do
  let headers := [("content-type", m.contentType), ("accept-ranges", "bytes")]
  if isRange then
    let contentLength ← subU64 checks stop offset
    let lastByte ← subU64 checks stop 1
    return headers ++ [("content-length", toString contentLength),
      ("content-range", s!"bytes {offset}-{lastByte}/{m.totalSize}")]
  else return headers ++ [("content-length", toString m.totalSize)]

/-- `get_media`, with or without overflow checks. A panic of the handler itself is answered by a layer
around it. -/
def getMedia (checks : Bool) (request : GetMedia) (cache : ChunkCache) : M Download := do
  match ← Index.getManifest (normalizeKey request.rawKey) with
  | none => return ⟨.text 404 "not found", none, cache⟩
  | some m =>
    let (offset, length, isRange) := parseRangeHeader request.range m.totalSize
    let status := if isRange then 206 else 200
    let stop ← check (rangeStop checks m.totalSize offset length)
    if m.chunkSize = 0 then throw (.panic "attempt to divide by zero")
    let first := offset / m.chunkSize
    let last ← check (lastIdx checks m.chunkSize stop)
    let prefetchEnd := min (min (last + 1) (first + 3)) m.chunks.length
    let cache ← prefetch X m.chunks (prefetchEnd - first) first cache
    let count := min last (m.chunks.length - 1) + 1 - first
    let (body, panic, cache) ← sendBody X checks m offset stop first last count first cache
    let headers ← check (downloadHeaders checks m offset stop isRange)
    if isHeaderValue m.contentType then return ⟨.stream status headers body, panic, cache⟩
    else return ⟨.text 500 "failed to parse header value", panic, cache⟩

end KaidaDB
