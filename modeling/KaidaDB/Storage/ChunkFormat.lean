import KaidaDB.Storage.BlobStore
import KaidaDB.Storage.RangeChecks

/-!
# Chunk files of any contents

`decodeChunkWith` is `decode_chunk` as a build with or without overflow checks runs it; `decodeChunk`
is the one with checks (`decodeChunkWith_true`). `ChunkFile.Spells` says which files are well formed,
with the length field read as a number.
-/

namespace KaidaDB

variable (X : Crates)

/-- Bytes 6 to 9. -/
def storedCrc (raw : Bytes) : Nat := fromLeBytes ((raw.drop 6).take 4)

/-- Bytes 10 to 17. -/
def payloadLen (raw : Bytes) : Nat := fromLeBytes ((raw.drop 10).take 8)

/-- The part of `decode_chunk` behind the checks of magic and version. -/
def decodePayload (checks : Bool) (raw : Bytes) : Except Fail Bytes := do
  let needed ← addU64 checks chunkHeaderSize (payloadLen raw)
  if raw.length < needed then
    throw (.error (.invalidChunkFormat
      s!"expected {payloadLen raw} payload bytes, got {raw.length - chunkHeaderSize}"))
  -- the sum is formed again for the slice
  let stop ← addU64 checks chunkHeaderSize (payloadLen raw)
  let payload ← sliceOf raw chunkHeaderSize stop
  let computedCrc := (X.crc32 payload).toNat
  if storedCrc raw = computedCrc then return payload
  throw (.error (.chunkIntegrity "unknown"
    s!"CRC mismatch: stored={hexNat (storedCrc raw)}, computed={hexNat computedCrc}"))

def decodeChunkWith (checks : Bool) (raw : Bytes) : Except Fail Bytes :=
  if raw.length < chunkHeaderSize then
    throw (.error (.invalidChunkFormat "data too short for header"))
  else if raw.take 4 ≠ chunkMagic then
    throw (.error (.invalidChunkFormat "bad magic bytes"))
  else if raw.getD 4 0 ≠ chunkFormatVersion then
    throw (.error (.invalidChunkFormat s!"unsupported version: {raw.getD 4 0}"))
  else decodePayload X checks raw

/-- `raw` starts like a chunk file: long enough for a header, with the magic and the version. -/
structure HasHeader (raw : Bytes) : Prop where
  long : chunkHeaderSize ≤ raw.length
  magic : raw.take 4 = chunkMagic
  version : raw[4]? = some chunkFormatVersion

/-- `raw` is a chunk file for the payload `p`, perhaps with more bytes after it. -/
structure Frames (raw p : Bytes) : Prop where
  header : HasHeader raw
  fits : chunkHeaderSize + payloadLen raw ≤ raw.length
  payload : p = (raw.drop chunkHeaderSize).take (payloadLen raw)
  crc : storedCrc raw = (X.crc32 p).toNat

/-- `decode_chunk` on `raw` returns the payload of a chunk file, an error for everything else, and
does not panic. -/
structure DecodesSafely (checks : Bool) (raw : Bytes) : Prop where
  ok_iff : ∀ p, decodeChunkWith X checks raw = .ok p ↔ Frames X raw p
  error : ∀ f, decodeChunkWith X checks raw = .error f → ∃ e, f = .error e

/-- The length field is so large that the length of the file is no `u64`. -/
def LengthOverflows (raw : Bytes) : Prop :=
  HasHeader raw ∧ 2 ^ 64 ≤ chunkHeaderSize + payloadLen raw

/-- `decode_chunk` returns an error for `raw`. -/
def Rejects (checks : Bool) (raw : Bytes) : Prop :=
  ∃ e, decodeChunkWith X checks raw = .error (.error e)

/-- Position `i` of a chunk file is in the magic, the version, the checksum or the payload. -/
def Guarded (i : Nat) : Prop := i < 5 ∨ 6 ≤ i ∧ i < 10 ∨ chunkHeaderSize ≤ i

end KaidaDB
