import KaidaDB.Lib.FinMap
import KaidaDB.Lib.Lines
import KaidaDB.Lib.Replay
import KaidaDB.Common.Types

/-!
# The index log

The index lives in memory (`IndexState`: manifests by key, chunk locations by hex id) and in an
append-only file, one JSON line per `LogEntry`. `applyEntry` is the effect of an entry,
`replayLines` the loop of `Index::open_with` over the lines of the file: it stops at the first
line that does not parse and remembers how many bytes were good before it.

`Crates` holds the functions of other crates the storage layer calls: SHA-256, CRC-32 and
serde_json's printer and parser for log entries. `Crates.Lawful` is what recovery relies on in the latter.
-/

namespace KaidaDB

open Std

/-- The entries of the index log. -/
inductive LogEntry where
  | putManifest (m : MediaManifest)
  | deleteManifest (key : String)
  | putChunkLocation (chunkIdHex : String) (location : ChunkLocation)
  | deleteChunkLocation (chunkIdHex : String)
deriving DecidableEq, Repr

/-- What the storage crates call outside this repository: `Sha256::digest`, `crc32fast::hash`,
`serde_json::to_string` and `serde_json::from_str` (`none` is its `Err`). -/
structure Crates where
  sha256 : Bytes → Vector UInt8 32
  crc32 : Bytes → UInt32
  jsonToString : LogEntry → List Char
  jsonFromStr : List Char → Option LogEntry

/-- serde_json prints an entry on one line, reads it back, and reads no part of it. -/
structure Crates.Lawful (X : Crates) : Prop where
  /-- Control characters are escaped. -/
  one_line : ∀ e, '\n' ∉ X.jsonToString e ∧ '\r' ∉ X.jsonToString e
  round_trip : ∀ e, X.jsonFromStr (X.jsonToString e) = some e
  rejects_start : ∀ e p, p <+: X.jsonToString e → p ≠ X.jsonToString e → X.jsonFromStr p = none

/-- `from_str` reads one value: a second one on the line is an error ("trailing characters"). -/
def Crates.RejectsTrailing (X : Crates) : Prop :=
  ∀ e f, X.jsonFromStr (X.jsonToString e ++ X.jsonToString f) = none

/-- The id of a chunk's contents. -/
def ChunkId.fromData (X : Crates) (data : Bytes) : ChunkId := ⟨X.sha256 data⟩

/-! ## The in-memory state -/

structure IndexState where
  manifests : ExtTreeMap String MediaManifest
  chunkLocations : ExtTreeMap String ChunkLocation

namespace IndexState

def empty : IndexState := ⟨∅, ∅⟩

@[ext] theorem ext {s t : IndexState} (hm : s.manifests = t.manifests)
    (hc : s.chunkLocations = t.chunkLocations) : s = t := by
  cases s; cases t; subst hm; subst hc; rfl

/-- Number of live entries: what a compacted log holds. -/
def live (s : IndexState) : Nat := s.manifests.size + s.chunkLocations.size

end IndexState

def applyEntry (s : IndexState) : LogEntry → IndexState
  | .putManifest m => { s with manifests := s.manifests.insert m.key m }
  | .deleteManifest key => { s with manifests := s.manifests.erase key }
  | .putChunkLocation hex loc => { s with chunkLocations := s.chunkLocations.insert hex loc }
  | .deleteChunkLocation hex => { s with chunkLocations := s.chunkLocations.erase hex }

/-- The state a log rebuilds. -/
def replayLog (es : List LogEntry) : IndexState := Replay.replay applyEntry .empty es

/-! ## The file -/

/-- The line `append_entry` writes for an entry. -/
def entryLine (X : Crates) (e : LogEntry) : Bytes := Lines.record (X.jsonToString e)

/-- A log of complete lines. -/
def logBytes (X : Crates) (es : List LogEntry) : Bytes := Lines.records (es.map X.jsonToString)

/-- What the replay loop of `open_with` ends with. -/
structure Replayed where
  state : IndexState
  /-- `entry_count`. -/
  entries : Nat
  /-- `good_len`: offset after the last line that was read. -/
  goodLen : Nat
  /-- A line did not parse. -/
  truncated : Bool

/-- The replay loop over the pieces of the file. -/
def replayLines (X : Crates) : List Bytes → IndexState → Nat → Nat → Except Fail Replayed
  | [], st, entries, goodLen => .ok ⟨st, entries, goodLen, false⟩
  | raw :: rest, st, entries, goodLen =>
    match Lines.readLine raw with
    | none => .error (.error (.io "stream did not contain valid UTF-8"))
    | some line =>
      let lineBytes := (Utf8.encode line).length + 1
      if line = [] then replayLines X rest st entries (goodLen + lineBytes)
      else
        match X.jsonFromStr line with
        | some e => replayLines X rest (applyEntry st e) (entries + 1) (goodLen + lineBytes)
        | none => .ok ⟨st, entries, goodLen, true⟩

/-- `File::set_len`: cuts the file or fills it up with zeros. -/
def setLen (n : Nat) (b : Bytes) : Bytes := b.take n ++ List.replicate (n - b.length) 0

end KaidaDB
