import KaidaDB.Storage.Engine

/-!
# Reading ranges

`StorageEngine::read_range` and `stream`: from the chunks that a range crosses they cut what lies in it.
Offsets and lengths are `u64`; sums and differences wrap, as in a release build (`wrappingSub`). What
`stream` sends is a list; the task that sends it has no caller to fail to, so a panic ends the list.
-/

namespace KaidaDB

variable (X : Crates)

/-- `a - b` on `u64`. -/
def wrappingSub (a b : Nat) : Nat := if b ≤ a then a - b else 2 ^ 64 + a - b

/-- `&data[start..stop]`. -/
def sliceOf {α : Type} (data : List α) (start stop : Nat) : Except Fail (List α) :=
  if stop < start then
    .error (.panic s!"slice index starts at {start} but ends at {stop}")
  else if data.length < stop then
    .error (.panic s!"range end index {stop} out of range for slice of length {data.length}")
  else .ok ((data.take stop).drop start)

/-- Where a range ends, at most at the end of the object. -/
def rangeEnd (totalSize offset length : Nat) : Nat :=
  if length = 0 then totalSize else min ((offset + length) % 2 ^ 64) totalSize

namespace MediaManifest

variable (m : MediaManifest)

def startChunkIdx (offset : Nat) : Nat := offset / m.chunkSize

def endChunkIdx (stop : Nat) : Nat := wrappingSub stop 1 / m.chunkSize

/-- What the chunk at `idx` has of the range. -/
def chunkPart (offset stop idx : Nat) (chunkData : Bytes) : Except Fail Bytes :=
  let chunkStart := idx * m.chunkSize
  let sliceStart := if idx = m.startChunkIdx offset then offset - chunkStart else 0
  let sliceEnd :=
    if idx = m.endChunkIdx stop then wrappingSub stop chunkStart else chunkData.length
  sliceOf chunkData sliceStart (min sliceEnd chunkData.length)

end MediaManifest

/-- The result of a program, or the way it failed. -/
def attempt {α : Type} (x : M α) : M (Except Fail α) :=
  tryCatch (.ok <$> x) fun e => pure (.error e)

namespace StorageEngine

/-- The loop of `read_range`, over the chunks from `idx` on. -/
def readParts (m : MediaManifest) (offset stop : Nat) : Nat → List ChunkId → M Bytes
  | _, [] => pure []
  | idx, chunkId :: rest => do
    if m.endChunkIdx stop < idx then return []
    let chunkData ← BlobStore.readChunk X chunkId
    let part ← check (m.chunkPart offset stop idx chunkData)
    return part ++ (← readParts m offset stop (idx + 1) rest)

/-- Read a byte range of media. -/
def readRange (key : String) (offset length : Nat) : M Bytes := do
  match ← Index.getManifest key with
  | none => throw (.error (.notFound key))
  | some manifest =>
    let stop := rangeEnd manifest.totalSize offset length
    if manifest.totalSize ≤ offset then return []
    if manifest.chunkSize = 0 then throw (.panic "attempt to divide by zero")
    -- `Vec::with_capacity` of the difference
    if stop < offset then throw (.panic "capacity overflow")
    let start := manifest.startChunkIdx offset
    readParts X manifest offset stop start (manifest.chunks.drop start)

/-- The task of `stream`: what it sends until it is done or something fails. -/
def sendParts (m : MediaManifest) (offset stop : Nat) :
    Nat → List ChunkId → M (List (Except KaidaDbError Bytes))
  | _, [] => pure []
  | idx, chunkId :: rest => do
    match ← attempt (BlobStore.readChunk X chunkId) with
    | .error (.error e) => return [.error e]
    | .error _ => return []
    | .ok chunkData =>
      match m.chunkPart offset stop idx chunkData with
      | .error _ => return []
      | .ok part => return .ok part :: (← sendParts m offset stop (idx + 1) rest)

/-- Stream media chunks: what the receiver gets. -/
def stream (key : String) (offset length : Nat) : M (List (Except KaidaDbError Bytes)) := do
  match ← Index.getManifest key with
  | none => throw (.error (.notFound key))
  | some manifest =>
    let stop := rangeEnd manifest.totalSize offset length
    if manifest.totalSize ≤ offset then return []
    if manifest.chunkSize = 0 then throw (.panic "attempt to divide by zero")
    let start := manifest.startChunkIdx offset
    let last := min (manifest.endChunkIdx stop) (wrappingSub manifest.chunks.length 1)
    let chunkIds ← check (sliceOf manifest.chunks start (last + 1))
    sendParts X manifest offset stop start chunkIds

end StorageEngine

end KaidaDB
