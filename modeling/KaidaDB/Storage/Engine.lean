import KaidaDB.Storage.Index
import KaidaDB.Storage.BlobStore

/-!
# The storage engine

`StorageEngine` and `StoreSession`: objects are cut into chunks, a chunk is stored once under its
SHA-256, and a manifest in the index lists the chunks of each object. A session takes a reference
on a chunk as it is flushed; `finish` writes the manifest and drops the references of the version
it replaces, `delete` drops those of the object before it removes the manifest, `abort` drops
the session's own. The functions here run one at a time; the locks they take in the source are
those of `Concurrent`.
-/

namespace KaidaDB

open Std

variable (X : Crates)

/-- Maximum allowed key length in bytes. -/
def maxKeyLen : Nat := 1024

/-- `char::is_control`. -/
def isControl (c : Char) : Bool := c.toNat < 0x20 || (0x7f ≤ c.toNat && c.toNat ≤ 0x9f)

/-- Reject empty, over-long, or control-character keys. -/
def validateKey (key : String) : Except Fail Unit :=
  if key = "" then .error (.error (.invalidKey "key cannot be empty"))
  else if maxKeyLen < key.utf8ByteSize then
    .error (.error (.invalidKey s!"key exceeds {maxKeyLen} bytes"))
  else if key.toList.any isControl then
    .error (.error (.invalidKey "key contains control characters"))
  else .ok ()

/-- A pure check as a program. -/
def check {ε σ α : Type} : Except ε α → EStateM ε σ α
  | .ok a => pure a
  | .error e => throw e

/-- Current unix time in seconds. -/
def nowSecs : M Int := do
  let now := (← get).clock
  return if now < 0 then 0 else now / 10 ^ 9

/-- The settings of a `StorageEngine`. -/
structure StorageEngine where
  chunkSize : Nat
  /-- Maximum size of a single object in bytes; `0` means unlimited. -/
  maxObjectSize : Nat := 0
  /-- Verify the full-object checksum on `read`. -/
  verifyOnRead : Bool := false
deriving DecidableEq, Repr

/-- An in-progress streaming store. -/
structure StoreSession where
  chunkSize : Nat
  maxObjectSize : Nat
  key : String
  contentType : String
  metadata : List (String × String)
  /-- What was fed to the hasher. -/
  hasher : Bytes
  totalSize : Nat
  chunks : List ChunkId
  buf : Bytes
  /-- Every chunk this session took a reference on. -/
  referencedChunks : List ChunkId
deriving DecidableEq, Repr

/-- Programs on a session and the store. -/
abbrev SM := EStateM Fail (StoreSession × Store)

def onStore {α : Type} (x : M α) : SM α := fun p =>
  match x p.2 with
  | .ok a s => .ok a (p.1, s)
  | .error e s => .error e (p.1, s)

def onSession (f : StoreSession → StoreSession) : SM Unit := modify fun p => (f p.1, p.2)

/-- Runs a program on a session that is dropped afterwards. -/
def withSession {α : Type} (session : StoreSession) (x : SM α) : M α := fun s =>
  match x (session, s) with
  | .ok a p => .ok a p.2
  | .error e p => .error e p.2

/-! ## Sessions -/

namespace StoreSession

/-- Number of bytes accepted so far. -/
def bytesWritten (s : StoreSession) : Nat := s.totalSize + s.buf.length

/-- The session with a chunk it has taken a reference on. -/
def addChunk (s : StoreSession) (chunkId : ChunkId) (chunkData : Bytes) : StoreSession :=
  { s with
    referencedChunks := s.referencedChunks ++ [chunkId]
    hasher := s.hasher ++ chunkData
    totalSize := s.totalSize + chunkData.length
    chunks := s.chunks ++ [chunkId] }

/-- Flush the current buffer as a content-addressed chunk. -/
def flushChunk : SM Unit := do
  let session := (← get).1
  if session.buf = [] then return
  -- the buffer is taken before anything can fail
  let chunkData := session.buf
  onSession fun s => { s with buf := [] }
  let chunkId := ChunkId.fromData X chunkData
  let path ← onStore (BlobStore.writeChunk X chunkId chunkData)
  onStore (Index.addChunkRef X chunkId path)
  onSession fun s => s.addChunk chunkId chunkData

/-- The loop of `write`, for at most as many iterations as the first argument: every iteration
takes at least one byte unless the chunk size is 0. -/
def writeLoop : Nat → Bytes → SM Unit
  | 0, data => if data = [] then pure () else throw .diverges
  | n + 1, data => do
    if data = [] then return
    let session := (← get).1
    let space := session.chunkSize - session.buf.length
    let taken := min space data.length
    onSession fun s => { s with buf := s.buf ++ data.take taken }
    if session.chunkSize ≤ (← get).1.buf.length then
      flushChunk X
    writeLoop n (data.drop taken)

/-- Feed bytes into the session, flushing full chunks as they fill. -/
def write (data : Bytes) : SM Unit := do
  let session := (← get).1
  if session.maxObjectSize ≠ 0 ∧ session.maxObjectSize < session.bytesWritten + data.length then
    throw (.error (.tooLarge
      s!"object exceeds max_object_size of {session.maxObjectSize} bytes"))
  writeLoop X data.length data

/-- The manifest of a session that has flushed its last chunk. -/
def manifest (s : StoreSession) (now : Int) : MediaManifest where
  key := s.key
  chunks := s.chunks
  totalSize := s.totalSize
  chunkSize := s.chunkSize
  contentType := s.contentType
  checksum := String.ofList (hexEncode (X.sha256 s.hasher).toList)
  metadata := s.metadata
  createdAt := now
  updatedAt := now

/-- Drop one reference of a replaced version; a file that cannot be removed stays. -/
def releaseReplaced (chunkId : ChunkId) : M Unit := do
  if ← Index.decrementChunkRef X chunkId then
    ignoreError (BlobStore.deleteChunk chunkId)

/-- Commit the upload: flush the trailing chunk and write the manifest. -/
def finish : SM MediaManifest := do
  flushChunk X
  let session := (← get).1
  let now ← onStore nowSecs
  let manifest := session.manifest X now
  let previous ← onStore (Index.getManifest manifest.key)
  onStore (Index.putManifest X manifest)
  match previous with
  | some old => onStore (old.chunks.forM (releaseReplaced X))
  | none => pure ()
  return manifest

/-- Drop one reference of an aborted session; errors are dropped as well. -/
def releaseAborted (chunkId : ChunkId) : M Unit :=
  ignoreError do
    if ← Index.decrementChunkRef X chunkId then
      ignoreError (BlobStore.deleteChunk chunkId)

/-- Abort the upload, releasing every reference this session took. -/
def abort : SM Unit := do
  let session := (← get).1
  onSession fun s => { s with referencedChunks := [] }
  onStore (session.referencedChunks.forM (releaseAborted X))

end StoreSession

/-! ## The engine -/

/-- Outcome of a garbage-collection pass. -/
structure GcReport where
  orphansRemoved : Nat := 0
  orphansSkipped : Nat := 0
  dangling : Nat := 0
deriving DecidableEq, Repr

namespace StorageEngine

def beginStore (engine : StorageEngine) (key contentType : String)
    (metadata : List (String × String)) : M StoreSession := do
  check (validateKey key)
  -- `Vec::with_capacity(chunk_size)`
  if isizeMax < engine.chunkSize then throw (.panic "capacity overflow")
  return {
    chunkSize := engine.chunkSize
    maxObjectSize := engine.maxObjectSize
    key, contentType, metadata
    hasher := []
    totalSize := 0
    chunks := []
    buf := []
    referencedChunks := [] }

/-- Store media with custom metadata from a contiguous buffer. -/
def storeWithMetadata (engine : StorageEngine) (key : String) (data : Bytes) (contentType : String)
    (metadata : List (String × String)) : M MediaManifest := do
  let session ← engine.beginStore key contentType metadata
  withSession session do
    StoreSession.write X data
    StoreSession.finish X

/-- The chunks of an object, one after the other. -/
def readChunks : List ChunkId → M Bytes
  | [] => pure []
  | chunkId :: rest => do
    let data ← BlobStore.readChunk X chunkId
    return data ++ (← readChunks rest)

/-- Read entire media into a contiguous buffer. -/
def read (engine : StorageEngine) (key : String) : M Bytes := do
  match ← Index.getManifest key with
  | none => throw (.error (.notFound key))
  | some manifest =>
    let buf ← readChunks X manifest.chunks
    if engine.verifyOnRead && manifest.checksum ≠ "" then
      let actual := String.ofList (hexEncode (X.sha256 buf).toList)
      if actual ≠ manifest.checksum then
        throw (.error (.chunkIntegrity key
          s!"full-object checksum mismatch: stored={manifest.checksum}, computed={actual}"))
    return buf

/-- Drop one reference of an object that is deleted. -/
def releaseDeleted (chunkId : ChunkId) : M Unit := do
  if ← Index.decrementChunkRef X chunkId then
    BlobStore.deleteChunk chunkId

/-- Delete media, cleaning up unreferenced chunks. -/
def delete (key : String) : M Bool := do
  match ← Index.getManifest key with
  | none => return false
  | some manifest =>
    manifest.chunks.forM (releaseDeleted X)
    Index.deleteManifest X key
    return true

/-- Rename (move) media from one key to another: only the manifest changes. -/
def rename (fromKey toKey : String) : M MediaManifest := do
  check (validateKey toKey)
  if fromKey = toKey then
    throw (.error (.invalidKey "source and destination keys are the same"))
  match ← Index.getManifest fromKey with
  | none => throw (.error (.notFound fromKey))
  | some manifest =>
    if (← Index.getManifest toKey).isSome then
      throw (.error (.alreadyExists toKey))
    let newManifest := { manifest with key := toKey, updatedAt := ← nowSecs }
    Index.putManifest X newManifest
    Index.deleteManifest X fromKey
    return newManifest

/-- A file is recent if it was modified less than `grace` ago; later than now is not recent. -/
def isRecent (now mtime : Int) (grace : Nat) : Bool := mtime ≤ now && now - mtime < grace

/-- The pass of `gc` over the files. -/
def gcFiles (indexed : List String) (now : Int) (grace : Nat) :
    List (String × ChunkFile) → GcReport → M GcReport
  | [], report => pure report
  | (hex, file) :: rest, report => do
    if hex ∈ indexed then gcFiles indexed now grace rest report
    else if isRecent now file.mtime grace then
      gcFiles indexed now grace rest { report with orphansSkipped := report.orphansSkipped + 1 }
    else
      let plan ← nextPlan
      if plan.removeFails then gcFiles indexed now grace rest report
      else
        modify fun s => { s with files := s.files.erase hex }
        gcFiles indexed now grace rest { report with orphansRemoved := report.orphansRemoved + 1 }

/-- The pass of `gc` over the index. -/
def gcDangling : List String → GcReport → M GcReport
  | [], report => pure report
  | hex :: rest, report => do
    match ChunkId.fromHex hex with
    | .panic => throw (.panic "source slice length does not match destination slice length")
    | .err => gcDangling rest report
    | .ok id =>
      if ← BlobStore.chunkExists id then gcDangling rest report
      else gcDangling rest { report with dangling := report.dangling + 1 }

/-- Garbage-collect orphaned chunk files and report dangling references. -/
def gc (grace : Nat) : M GcReport := do
  let indexed ← Index.chunkIdHexes
  let now := (← get).clock
  let report ← gcFiles indexed now grace (← BlobStore.iterChunkFiles) {}
  gcDangling indexed report

end StorageEngine

end KaidaDB
