import KaidaDB.Storage.Range

/-!
# The arithmetic of ranges, with and without overflow checks

Where a build has overflow checks, a sum or a difference that is no `u64` is a panic; without them it
wraps. `RangeReader.parts` goes through what `read_range`, `stream` and `stream_media` compute for a
request, over chunks with given contents, and returns what they take from each chunk.
-/

namespace KaidaDB

/-- `a + b` on `u64`. -/
def addU64 (checks : Bool) (a b : Nat) : Except Fail Nat :=
  if a + b < 2 ^ 64 then .ok (a + b)
  else if checks then .error (.panic "attempt to add with overflow")
  else .ok ((a + b) % 2 ^ 64)

/-- `a - b` on `u64`. -/
def subU64 (checks : Bool) (a b : Nat) : Except Fail Nat :=
  if b ≤ a then .ok (a - b)
  else if checks then .error (.panic "attempt to subtract with overflow")
  else .ok (wrappingSub a b)

/-- Where a range ends. -/
def rangeStop (checks : Bool) (totalSize offset length : Nat) : Except Fail Nat :=
  if length = 0 then .ok totalSize
  else do
    let sum ← addU64 checks offset length
    return min sum totalSize

/-- What is taken from the chunk at `idx`, of those from `first` to `last`. -/
def cutChunk (checks : Bool) (chunkSize offset stop first last idx : Nat) (chunkData : Bytes) :
    Except Fail Bytes := do
  let chunkStart := idx * chunkSize
  let sliceStart ← (if idx = first then subU64 checks offset chunkStart else .ok 0 : Except Fail Nat)
  let sliceEnd ←
    (if idx = last then subU64 checks stop chunkStart else .ok chunkData.length : Except Fail Nat)
  sliceOf chunkData sliceStart (min sliceEnd chunkData.length)

/-- The loop over the chunks from `idx` on. -/
def cutChunks (checks : Bool) (chunkSize offset stop first last : Nat) :
    Nat → List Bytes → Except Fail (List Bytes)
  | _, [] => .ok []
  | idx, chunkData :: rest => do
    let part ← cutChunk checks chunkSize offset stop first last idx chunkData
    let parts ← cutChunks checks chunkSize offset stop first last (idx + 1) rest
    return part :: parts

inductive RangeReader where
  | readRange
  | stream
  | streamMedia
deriving DecidableEq, Repr

/-- The chunks a reader goes through: `read_range` stops behind the last chunk, `stream` cuts the ids out
of the manifest, `stream_media` indexes them. -/
def RangeReader.chunks (checks : Bool) (reader : RangeReader) (offset stop first last : Nat)
    (pieces : List Bytes) : Except Fail (List Bytes) :=
  match reader with
  | .readRange => do
    -- `Vec::with_capacity` of the difference
    let _ ← subU64 checks stop offset
    if stop < offset then throw (.panic "capacity overflow")
    return (pieces.take (last + 1)).drop first
  | .stream => do
    let bound ← subU64 checks pieces.length 1
    sliceOf pieces first (min last bound + 1)
  | .streamMedia => do
    let bound ← subU64 checks pieces.length 1
    return (pieces.take (min last bound + 1)).drop first

/-- What the reader takes from the chunks of the object, which have the contents `pieces`. -/
def RangeReader.parts (checks : Bool) (reader : RangeReader) (m : MediaManifest)
    (pieces : List Bytes) (offset length : Nat) : Except Fail (List Bytes) := do
  let stop ← rangeStop checks m.totalSize offset length
  if m.totalSize ≤ offset then return []
  if m.chunkSize = 0 then throw (.panic "attempt to divide by zero")
  let first := offset / m.chunkSize
  let beforeStop ← subU64 checks stop 1
  let last := beforeStop / m.chunkSize
  let chunks ← reader.chunks checks offset stop first last pieces
  cutChunks checks m.chunkSize offset stop first last first chunks

end KaidaDB
