import KaidaDB.Storage.Disk

/-!
# Chunk files

`encodeChunk` and `decodeChunk`: a chunk file is the magic, a version byte, a flags byte, the
CRC-32 and the length of the payload, and the payload. `BlobStore`: files are named after the id of
their contents and written once; a second write of the same id finds the first one's file.
-/

namespace KaidaDB

open Std

variable (X : Crates)

/-! ## The format -/

/-- The last `n` bytes of a number, little-endian (`to_le_bytes`). -/
def leBytes : Nat → Nat → Bytes
  | 0, _ => []
  | n + 1, x => UInt8.ofNat (x % 256) :: leBytes n (x / 256)

/-- The number with the given little-endian bytes (`from_le_bytes`). -/
def fromLeBytes : Bytes → Nat
  | [] => 0
  | b :: bs => b.toNat + 256 * fromLeBytes bs

/-- The format `{:#x}`. -/
def hexNat (n : Nat) : String := "0x" ++ String.ofList (Nat.toDigits 16 n)

/-- Encode raw data into a chunk file. -/
def encodeChunk (data : Bytes) : Bytes :=
  chunkMagic ++ chunkFormatVersion :: 0 :: leBytes 4 (X.crc32 data).toNat ++ leBytes 8 data.length
    ++ data

/-- Decode a chunk file, checking the header and the CRC. -/
def decodeChunk (raw : Bytes) : Except Fail Bytes :=
  if raw.length < chunkHeaderSize then
    throw (.error (.invalidChunkFormat "data too short for header"))
  else if raw.take 4 ≠ chunkMagic then
    throw (.error (.invalidChunkFormat "bad magic bytes"))
  else if raw.getD 4 0 ≠ chunkFormatVersion then
    throw (.error (.invalidChunkFormat s!"unsupported version: {raw.getD 4 0}"))
  else
    let storedCrc := fromLeBytes ((raw.drop 6).take 4)
    let payloadLen := fromLeBytes ((raw.drop 10).take 8)
    -- `CHUNK_HEADER_SIZE + payload_len` is computed in 64 bits
    if 2 ^ 64 ≤ chunkHeaderSize + payloadLen then
      throw (.panic "attempt to add with overflow")
    else if raw.length < chunkHeaderSize + payloadLen then
      throw (.error (.invalidChunkFormat
        s!"expected {payloadLen} payload bytes, got {raw.length - chunkHeaderSize}"))
    else
      let payload := (raw.drop chunkHeaderSize).take payloadLen
      let computedCrc := (X.crc32 payload).toNat
      if storedCrc ≠ computedCrc then
        throw (.error (.chunkIntegrity "unknown"
          s!"CRC mismatch: stored={hexNat storedCrc}, computed={hexNat computedCrc}"))
      else .ok payload

theorem fromLeBytes_leBytes : ∀ n x, x < 256 ^ n → fromLeBytes (leBytes n x) = x
  | 0, x, h => by simp at h; subst h; rfl
  | n + 1, x, h => by
    have hd : x / 256 < 256 ^ n := by rw [pow_succ] at h; omega
    have hm : (UInt8.ofNat (x % 256)).toNat = x % 256 := by
      rw [UInt8.toNat_ofNat']; omega
    rw [leBytes, fromLeBytes, fromLeBytes_leBytes n _ hd, hm]
    omega

theorem leBytes_length : ∀ n x, (leBytes n x).length = n
  | 0, _ => rfl
  | n + 1, x => by rw [leBytes, List.length_cons, leBytes_length n]

/-- The format round-trips for every payload whose length fits its field. -/
theorem decodeChunk_encodeChunk {data : Bytes} (h : chunkHeaderSize + data.length < 2 ^ 64) :
    decodeChunk X (encodeChunk X data) = .ok data := by
  obtain ⟨c0, c1, c2, c3, hc⟩ : ∃ c0 c1 c2 c3, leBytes 4 (X.crc32 data).toNat = [c0, c1, c2, c3] :=
    ⟨_, _, _, _, rfl⟩
  obtain ⟨l0, l1, l2, l3, l4, l5, l6, l7, hl⟩ : ∃ l0 l1 l2 l3 l4 l5 l6 l7,
      leBytes 8 data.length = [l0, l1, l2, l3, l4, l5, l6, l7] := ⟨_, _, _, _, _, _, _, _, rfl⟩
  have hcrc : fromLeBytes [c0, c1, c2, c3] = (X.crc32 data).toNat := by
    rw [← hc]
    exact fromLeBytes_leBytes 4 _ (X.crc32 data).toNat_lt
  have hlen : fromLeBytes [l0, l1, l2, l3, l4, l5, l6, l7] = data.length := by
    rw [← hl]
    exact fromLeBytes_leBytes 8 _ (by simp only [chunkHeaderSize] at h; omega)
  have henc : encodeChunk X data = [0x4B, 0x44, 0x42, 0x43, 1, 0, c0, c1, c2, c3, l0, l1, l2, l3,
      l4, l5, l6, l7] ++ data := by
    rw [encodeChunk, hc, hl]; rfl
  rw [henc]
  unfold decodeChunk
  simp only [chunkHeaderSize] at h
  simp [chunkMagic, chunkFormatVersion, chunkHeaderSize, hcrc, hlen]
  rw [if_neg (by omega), if_neg (by omega), if_neg (by omega)]

/-! ## The store of chunk files -/

namespace BlobStore

/-- Full path of a chunk file, as the index records it. -/
def chunkPath (dataDir : String) (chunkId : ChunkId) : String :=
  s!"{dataDir}/chunks/{chunkId.fanOut.1}/{chunkId.fanOut.2}/{chunkId.toHex}.kdc"

def chunkExists (chunkId : ChunkId) : M Bool := do
  return (← get).files.contains chunkId.toHex

/-- Write a chunk file: a temporary file is written and takes its place in one step. -/
def createChunk (chunkId : ChunkId) (data : Bytes) : M Unit := do
  let plan ← nextPlan
  if plan.writeFails then throw ioError
  modify fun s =>
    { s with files := s.files.insert chunkId.toHex ⟨encodeChunk X data, s.clock⟩ }

/-- Write a chunk under its id unless there is one; returns its path. -/
def writeChunk (chunkId : ChunkId) (data : Bytes) : M String := do
  let path := chunkPath (← get).dataDir chunkId
  if ← chunkExists chunkId then return path
  createChunk X chunkId data
  return path

def readChunk (chunkId : ChunkId) : M Bytes := do
  match (← get).files[chunkId.toHex]? with
  | none => throw (.error (.notFound s!"chunk not found: {chunkId.toHex}"))
  | some f =>
    match decodeChunk X f.bytes with
    | .ok data => return data
    | .error e => throw e

def deleteChunk (chunkId : ChunkId) : M Unit := do
  if (← get).files.contains chunkId.toHex then
    let plan ← nextPlan
    if plan.removeFails then throw ioError
    modify fun s => { s with files := s.files.erase chunkId.toHex }

/-- All chunk files with a name of 64 bytes. -/
def iterChunkFiles : M (List (String × ChunkFile)) := do
  return (← get).files.toList.filter fun p => p.1.utf8ByteSize = 64

end BlobStore

end KaidaDB
