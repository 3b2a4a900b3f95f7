import Mathlib.Algebra.Group.Nat.Defs
import KaidaDB.Lib.Utf8

/-!
# Chunk ids, chunk locations and media manifests

The data types of the `kaidadb-common` crate. A `ChunkId` is the 32-byte digest of a chunk's
contents; index and file names use its lower-case hex form `toHex`, which determines it
(`ChunkId.toHex_injective`). Counters the code keeps in `u32`, `u64` or `usize` are `Nat`, time
stamps `Int`; a `HashMap` of metadata is the list of its entries.
-/

namespace KaidaDB

abbrev Bytes := List UInt8

/-! ## Constants -/

/-- Chunk file magic bytes: "KDBC". -/
def chunkMagic : Bytes := [0x4B, 0x44, 0x42, 0x43]

/-- Current chunk format version. -/
def chunkFormatVersion : UInt8 := 1

/-- Chunk header size in bytes. -/
def chunkHeaderSize : Nat := 18

/-- The largest length of a `Vec<u8>`: `isize::MAX`. -/
def isizeMax : Nat := 2 ^ 63 - 1

/-! ## Errors -/

/-- `KaidaDbError`. -/
inductive KaidaDbError where
  | notFound (msg : String)
  | alreadyExists (msg : String)
  | invalidKey (msg : String)
  | tooLarge (msg : String)
  | storage (msg : String)
  | chunkIntegrity (chunkId detail : String)
  | io (msg : String)
  | serialization (msg : String)
  | invalidChunkFormat (msg : String)
  | config (msg : String)
  | unauthorized (msg : String)
  | internal (msg : String)
deriving DecidableEq, Repr

/-- The ways a call ends other than by returning a value: an `Err`, a panic, or never. -/
inductive Fail where
  | error (e : KaidaDbError)
  | panic (msg : String)
  | diverges
deriving DecidableEq, Repr

/-! ## Hex -/

/-- A hex digit as `hex::encode` prints it. -/
def hexDigit (n : Nat) : Char :=
  if n < 10 then Char.ofNat (48 + n) else Char.ofNat (87 + n)

/-- The value of a hex digit of either case. -/
def hexValue (c : Char) : Option Nat :=
  if '0' ≤ c ∧ c ≤ '9' then some (c.toNat - 48)
  else if 'a' ≤ c ∧ c ≤ 'f' then some (c.toNat - 87)
  else if 'A' ≤ c ∧ c ≤ 'F' then some (c.toNat - 55)
  else none

/-- `hex::encode`. -/
def hexEncode (bs : Bytes) : List Char :=
  bs.flatMap fun b => [hexDigit (b.toNat / 16), hexDigit (b.toNat % 16)]

/-- `hex::decode`: an even number of hex digits. -/
def hexDecode : List Char → Option Bytes
  | [] => some []
  | [_] => none
  | h :: l :: rest =>
    match hexValue h, hexValue l, hexDecode rest with
    | some x, some y, some bs => some (UInt8.ofNat (16 * x + y) :: bs)
    | _, _, _ => none

theorem hexValue_hexDigit : ∀ n < 16, hexValue (hexDigit n) = some n := by decide

theorem hexDecode_hexEncode : ∀ bs : Bytes, hexDecode (hexEncode bs) = some bs
  | [] => rfl
  | b :: bs => by
    have hb : b.toNat < 256 := b.toNat_lt
    have ih := hexDecode_hexEncode bs
    show hexDecode (hexDigit (b.toNat / 16) :: hexDigit (b.toNat % 16) :: hexEncode bs) = _
    rw [hexDecode, hexValue_hexDigit _ (by omega), hexValue_hexDigit _ (by omega), ih]
    simp only [Option.some.injEq, List.cons.injEq, and_true]
    rw [show 16 * (b.toNat / 16) + b.toNat % 16 = b.toNat by omega, UInt8.ofNat_toNat]

theorem hexEncode_injective : Function.Injective hexEncode := fun a b h =>
  Option.some.inj ((hexDecode_hexEncode a).symm.trans (h ▸ hexDecode_hexEncode b))

theorem utf8Size_hexDigit : ∀ n < 16, (hexDigit n).utf8Size = 1 := by decide

theorem utf8ByteSize_hexEncode : ∀ bs : Bytes,
    (String.ofList (hexEncode bs)).utf8ByteSize = 2 * bs.length
  | [] => rfl
  | b :: bs => by
    have hb : b.toNat < 256 := b.toNat_lt
    have ih := utf8ByteSize_hexEncode bs
    have hcons : hexEncode (b :: bs)
        = hexDigit (b.toNat / 16) :: hexDigit (b.toNat % 16) :: hexEncode bs := rfl
    rw [hcons, String.ofList_cons, String.ofList_cons, String.utf8ByteSize_append,
      String.utf8ByteSize_append, String.utf8ByteSize_singleton, String.utf8ByteSize_singleton, ih,
      utf8Size_hexDigit _ (by omega), utf8Size_hexDigit _ (by omega), List.length_cons]
    omega

/-! ## Chunk ids -/

/-- A content-addressed chunk identifier: the SHA-256 digest of the contents. -/
structure ChunkId where
  bytes : Vector UInt8 32
deriving DecidableEq, Repr

namespace ChunkId

def toHex (id : ChunkId) : String := String.ofList (hexEncode id.bytes.toList)

/-- What `from_hex` does on a string: `copy_from_slice` panics unless 32 bytes were decoded. -/
inductive FromHex where
  | ok (id : ChunkId)
  | err
  | panic
deriving DecidableEq, Repr

def fromHex (s : String) : FromHex :=
  match hexDecode s.toList with
  | none => .err
  | some bs => if h : bs.toArray.size = 32 then .ok ⟨⟨bs.toArray, h⟩⟩ else .panic

/-- The two-level directory components: the first two bytes. -/
def fanOut (id : ChunkId) : String × String :=
  (String.ofList (hexEncode [id.bytes[0]]), String.ofList (hexEncode [id.bytes[1]]))

theorem toHex_injective : Function.Injective toHex := by
  intro a b h
  have h1 := hexEncode_injective (String.ofList_injective h)
  cases a; cases b
  exact congrArg ChunkId.mk (Vector.toList_inj.1 h1)

theorem utf8ByteSize_toHex (id : ChunkId) : id.toHex.utf8ByteSize = 64 := by
  rw [toHex, utf8ByteSize_hexEncode, Vector.length_toList]

theorem fromHex_toHex (id : ChunkId) : fromHex id.toHex = .ok id := by
  obtain ⟨⟨xs, h⟩⟩ := id
  simp [fromHex, toHex, hexDecode_hexEncode, h]

end ChunkId

/-! ## Index records -/

/-- Location of a chunk on disk. -/
structure ChunkLocation where
  path : String
  /-- A `u32` in the source; counts are taken to stay below 2^32. -/
  refCount : Nat
deriving DecidableEq, Repr

/-- Media manifest: what the index stores for a user key. -/
structure MediaManifest where
  key : String
  chunks : List ChunkId
  totalSize : Nat
  chunkSize : Nat
  contentType : String
  checksum : String
  metadata : List (String × String)
  createdAt : Int
  updatedAt : Int
deriving DecidableEq, Repr

namespace MediaManifest

/-- `chunk_count`: the length as a `u32`. -/
def chunkCount (m : MediaManifest) : Nat := m.chunks.length % 2 ^ 32

end MediaManifest

/-- How aggressively the index log is flushed to stable storage. -/
inductive Durability where
  | none
  | sync
deriving DecidableEq, Repr

end KaidaDB
