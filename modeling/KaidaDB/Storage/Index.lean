import KaidaDB.Storage.Disk

/-!
# The index

`Index`: every change is appended to the log first and made in memory after that. Reference counts
of chunks are changed by `addChunkRef` and `decrementChunkRef`; once the log has grown well
beyond the live entries, the operations that end a change of a manifest rewrite it (`compact`).
-/

namespace KaidaDB

open Std

variable (X : Crates)

/-- Don't auto-compact until the log has at least this many entries. -/
def compactionFloor : Nat := 1024

/-- Auto-compact when total log entries exceed this multiple of live entries. -/
def compactionRatio : Nat := 2

namespace Index

/-! ## Opening -/

/-- `open_with` on the bytes at `log_path` (no file is the empty one): the rebuilt state, the number
of entries and the file afterwards. -/
def openLog (log : Bytes) : Except Fail (IndexState × Nat × Bytes) := do
  let r ← replayLines X (Lines.rawLines log) .empty 0 0
  -- only a line that did not parse cuts the file
  return (r.state, r.entries, if r.truncated then setLen r.goodLen log else log)

/-- `open_with`: what was in memory before does not matter. -/
def openWith (s : Store) (durability : Durability) : Except Fail Store := do
  let (state, entries, log) ← openLog X s.log
  return { s with durability, index := state, logEntries := entries, log, attached := true }

/-! ## The log -/

/-- Bytes written through `log_file`. -/
def writeLog (b : Bytes) : M Unit :=
  modify fun s => if s.attached then { s with log := s.log ++ b } else s

def appendEntry (entry : LogEntry) (sync : Bool) : M Unit := do
  let line := entryLine X entry
  let plan ← nextPlan
  match plan.append with
  | some (.write n) =>
    writeLog (line.take n)
    throw ioError
  | some .sync =>
    writeLog line
    if sync && (← get).durability = .sync then throw ioError
  | none => writeLog line
  modify fun s => { s with logEntries := s.logEntries + 1 }

/-- The entries a compacted log holds, in the order of the maps. -/
def liveEntries (s : IndexState) : List LogEntry :=
  s.manifests.toList.map (fun p => .putManifest p.2)
    ++ s.chunkLocations.toList.map (fun p => .putChunkLocation p.1 p.2)

def compact : M Unit := do
  let s ← get
  let entries := liveEntries s.index
  match s.io.head.compact with
  | some .beforeRename => throw ioError
  | some .afterRename =>
    set { s with log := logBytes X entries, attached := false }
    throw ioError
  | none => set { s with log := logBytes X entries, attached := true, logEntries := entries.length }

def maybeCompact : M Unit := do
  let s ← get
  if s.logEntries < compactionFloor then return
  if s.logEntries < compactionRatio * s.index.live then return
  ignoreError (compact X)

/-! ## Media manifests -/

def putManifest (manifest : MediaManifest) : M Unit := do
  appendEntry X (.putManifest manifest) true
  modify fun s => { s with index := applyEntry s.index (.putManifest manifest) }
  maybeCompact X

def getManifest (key : String) : M (Option MediaManifest) := do
  return (← get).index.manifests[key]?

def deleteManifest (key : String) : M Unit := do
  appendEntry X (.deleteManifest key) true
  modify fun s => { s with index := applyEntry s.index (.deleteManifest key) }
  maybeCompact X

/-! ## Chunk locations -/

def putChunkLocation (chunkId : ChunkId) (location : ChunkLocation) : M Unit := do
  let entry := LogEntry.putChunkLocation chunkId.toHex location
  appendEntry X entry false
  modify fun s => { s with index := applyEntry s.index entry }

def getChunkLocation (chunkId : ChunkId) : M (Option ChunkLocation) := do
  return (← get).index.chunkLocations[chunkId.toHex]?

def deleteChunkLocation (chunkId : ChunkId) : M Unit := do
  let entry := LogEntry.deleteChunkLocation chunkId.toHex
  appendEntry X entry false
  modify fun s => { s with index := applyEntry s.index entry }

/-- Take a reference on a chunk: create it at count 1 if absent, otherwise increment. -/
def addChunkRef (chunkId : ChunkId) (path : String) : M Unit := do
  let updated := match ← getChunkLocation chunkId with
    | some loc => { loc with refCount := loc.refCount + 1 }
    | none => { path, refCount := 1 }
  putChunkLocation X chunkId updated

/-- Drop a reference; delete the entry and return `true` if it was the last. -/
def decrementChunkRef (chunkId : ChunkId) : M Bool := do
  match ← getChunkLocation chunkId with
  | some loc =>
    if loc.refCount ≤ 1 then
      deleteChunkLocation X chunkId
      return true
    putChunkLocation X chunkId { loc with refCount := loc.refCount - 1 }
    return false
  | none => return false

/-- Snapshot of all tracked ids. -/
def chunkIdHexes : M (List String) := do
  return (← get).index.chunkLocations.keys

end Index

end KaidaDB
