import KaidaDB.Crates.Digest
import KaidaDB.Lib.Codec
import KaidaDB.Storage.Log

/-!
# The crates of a concrete run

`Crates.reference` puts the published digests together with the JSON that serde_json derives for
`LogEntry`: an enum is an object with its variant as the only field, a struct an object with its
fields in the order of the source, a chunk id an array of 32 numbers. Its reader accepts what the
printer prints. It has the properties recovery relies on (`Crates.reference_lawful`,
`Crates.reference_rejectsTrailing`).
-/

namespace KaidaDB

namespace Json

open Codec

def byte : Codec UInt8 :=
  Codec.nat.imap UInt8.toNat (fun n => if n < 256 then some (UInt8.ofNat n) else none) fun a => by
    rw [if_pos a.toNat_lt, UInt8.ofNat_toNat]

theorem byte_head (a : UInt8) : ∃ x s, byte.print a = x :: s ∧ x ≠ ']' := by
  obtain ⟨d, hd, s, hs⟩ := digitsUpTo_head (a.toNat + 1) a.toNat [] (Nat.lt_succ_self _)
  refine ⟨digit d, s, hs, fun h => ?_⟩
  have := (digit_spec d hd).1
  rw [h] at this
  cases this

def byteArray : Codec (List UInt8) :=
  byte.list '[' ']' (by decide) (by decide) (by decide) byte_head

def chunkId : Codec ChunkId :=
  byteArray.imap (fun id => id.bytes.toList)
    (fun bs => if h : bs.toArray.size = 32 then some ⟨⟨bs.toArray, h⟩⟩ else none)
    fun id => by
      obtain ⟨⟨xs, h⟩⟩ := id
      simp [h]

theorem chunkId_head (a : ChunkId) : ∃ x s, chunkId.print a = x :: s ∧ x ≠ ']' := by
  show ∃ x s, byteArray.print a.bytes.toList = x :: s ∧ x ≠ ']'
  cases a.bytes.toList with
  | nil => exact ⟨'[', [']'], rfl, by decide⟩
  | cons b bs => exact ⟨'[', _, rfl, by decide⟩

def pair : Codec (String × String) := Codec.string.sep ":".toList (by decide) (by decide) .string

theorem pair_head (a : String × String) : ∃ x s, pair.print a = x :: s ∧ x ≠ '\x7d' :=
  ⟨'"', _, rfl, by decide⟩

def manifestFields := Codec.string
  |>.sep ",\"chunks\":".toList (by decide) (by decide)
    (chunkId.list '[' ']' (by decide) (by decide) (by decide) chunkId_head)
  |>.sep ",\"total_size\":".toList (by decide) (by decide) .nat
  |>.sep ",\"chunk_size\":".toList (by decide) (by decide) .nat
  |>.sep ",\"content_type\":".toList (by decide) (by decide) .string
  |>.sep ",\"checksum\":".toList (by decide) (by decide) .string
  |>.sep ",\"metadata\":".toList (by decide) (by decide)
    (pair.list '\x7b' '\x7d' (by decide) (by decide) (by decide) pair_head)
  |>.sep ",\"created_at\":".toList (by decide) (by decide) .int
  |>.sep ",\"updated_at\":".toList (by decide) (by decide) .int

/-! What the entries of each variant start with. -/

def putManifestTag : List Char := "\x7b\"PutManifest\":\x7b\"key\":".toList

def deleteManifestTag : List Char := "\x7b\"DeleteManifest\":".toList

def putChunkLocationTag : List Char :=
  "\x7b\"PutChunkLocation\":\x7b\"chunk_id_hex\":".toList

def deleteChunkLocationTag : List Char :=
  "\x7b\"DeleteChunkLocation\":\x7b\"chunk_id_hex\":".toList

/-- `LogEntry::PutManifest`. -/
def putManifest : Codec MediaManifest :=
  (manifestFields.imap
    (fun m => ((((((((m.key, m.chunks), m.totalSize), m.chunkSize), m.contentType), m.checksum),
      m.metadata), m.createdAt), m.updatedAt))
    (fun p => match p with
      | ((((((((key, chunks), size), chunkSize), contentType), checksum), metadata), created),
          updated) =>
        some ⟨key, chunks, size, chunkSize, contentType, checksum, metadata, created, updated⟩)
    fun _ => rfl).around putManifestTag "\x7d\x7d".toList (by decide) (by decide)

/-- `LogEntry::DeleteManifest`. -/
def deleteManifest : Codec String :=
  Codec.string.around deleteManifestTag "\x7d".toList (by decide) (by decide)

/-- `LogEntry::PutChunkLocation`. -/
def putChunkLocation : Codec (String × ChunkLocation) :=
  ((Codec.string.sep ",\"location\":\x7b\"path\":".toList (by decide) (by decide) .string
    |>.sep ",\"ref_count\":".toList (by decide) (by decide) .nat).imap
      (fun p => ((p.1, p.2.path), p.2.refCount))
      (fun p => some (p.1.1, ⟨p.1.2, p.2⟩)) fun _ => rfl).around
    putChunkLocationTag "\x7d\x7d\x7d".toList (by decide) (by decide)

/-- `LogEntry::DeleteChunkLocation`. -/
def deleteChunkLocation : Codec String :=
  Codec.string.around deleteChunkLocationTag "\x7d\x7d".toList (by decide) (by decide)

def printEntry : LogEntry → List Char
  | .putManifest m => putManifest.print m
  | .deleteManifest key => deleteManifest.print key
  | .putChunkLocation hex loc => putChunkLocation.print (hex, loc)
  | .deleteChunkLocation hex => deleteChunkLocation.print hex

def parseEntry (s : List Char) : Option (LogEntry × List Char) :=
  match putManifest.parse s, deleteManifest.parse s, putChunkLocation.parse s,
    deleteChunkLocation.parse s with
  | some (m, r), _, _, _ => some (.putManifest m, r)
  | none, some (key, r), _, _ => some (.deleteManifest key, r)
  | none, none, some ((hex, loc), r), _ => some (.putChunkLocation hex loc, r)
  | none, none, none, some (hex, r) => some (.deleteChunkLocation hex, r)
  | none, none, none, none => none

theorem parseEntry_print (e : LogEntry) (r : List Char) :
    parseEntry (printEntry e ++ r) = some (e, r) := by
  -- the readers tried before the right one fail at the start of the text
  unfold parseEntry
  cases e with
  | putManifest m =>
    rw [show putManifest.parse (printEntry (.putManifest m) ++ r) = some (m, r) from
      selfDelimiting_around m r]
  | deleteManifest key =>
    rw [show deleteManifest.parse (printEntry (.deleteManifest key) ++ r) = some (key, r) from
      selfDelimiting_around key r]
    rw [show printEntry (.deleteManifest key) ++ r = _ from List.append_assoc deleteManifestTag _ _,
      show putManifest.parse _ = none from around_parse_none (by decide) _]
  | putChunkLocation hex loc =>
    rw [show putChunkLocation.parse (printEntry (.putChunkLocation hex loc) ++ r)
      = some ((hex, loc), r) from selfDelimiting_around (hex, loc) r]
    rw [show printEntry (.putChunkLocation hex loc) ++ r = _ from
        List.append_assoc putChunkLocationTag _ _,
      show putManifest.parse _ = none from around_parse_none (by decide) _,
      show deleteManifest.parse _ = none from around_parse_none (by decide) _]
  | deleteChunkLocation hex =>
    rw [show deleteChunkLocation.parse (printEntry (.deleteChunkLocation hex) ++ r)
      = some (hex, r) from selfDelimiting_around hex r]
    rw [show printEntry (.deleteChunkLocation hex) ++ r = _ from
        List.append_assoc deleteChunkLocationTag _ _,
      show putManifest.parse _ = none from around_parse_none (by decide) _,
      show deleteManifest.parse _ = none from around_parse_none (by decide) _,
      show putChunkLocation.parse _ = none from around_parse_none (by decide) _]

def entry : Codec LogEntry where
  print := printEntry
  parse := parseEntry
  law e r _ := parseEntry_print e r
  visible e := by
    cases e with
    | putManifest m => exact putManifest.visible m
    | deleteManifest key => exact deleteManifest.visible key
    | putChunkLocation hex loc => exact putChunkLocation.visible (hex, loc)
    | deleteChunkLocation hex => exact deleteChunkLocation.visible hex

theorem entry_selfDelimiting : entry.SelfDelimiting := parseEntry_print

end Json

/-- The digests as published and the JSON of `LogEntry`. -/
def Crates.reference : Crates where
  sha256 := Digest.sha256
  crc32 := Digest.crc32
  jsonToString := Json.entry.print
  jsonFromStr := Json.entry.exactly

theorem Crates.reference_lawful : Crates.reference.Lawful where
  one_line e := by
    refine ⟨fun h => ?_, fun h => ?_⟩
    · exact absurd (Json.entry.visible e _ h) (by decide)
    · exact absurd (Json.entry.visible e _ h) (by decide)
  round_trip := Codec.exactly_print Json.entry_selfDelimiting
  rejects_start _ _ := Codec.exactly_start Json.entry_selfDelimiting

theorem Crates.reference_rejectsTrailing : Crates.reference.RejectsTrailing := fun e f =>
  Codec.exactly_append Json.entry_selfDelimiting e (by cases f <;> exact List.cons_ne_nil _ _)

/-- The line of a removal. -/
example : Crates.reference.jsonToString (.deleteManifest "a\"\n")
    = "\x7b\"DeleteManifest\":\"a\\\"\\n\"\x7d".toList := by decide

end KaidaDB
