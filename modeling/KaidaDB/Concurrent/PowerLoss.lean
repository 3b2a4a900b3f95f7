import KaidaDB.Lib.PowerLoss
import KaidaDB.Concurrent.LogOrder

/-!
# The engine on a disk that loses power

The machine of calls with the disk under it. Each deed of an action is a sequence of operations on the
disk: a chunk is written to a temporary file, synced and renamed, and its directory is synced; an entry
of the log is appended, and synced if it is that of a manifest; a compaction replaces the log by a file
that is synced, and does not sync the directory of the log. The engine does not sync it after `open_with`
has created the log either; but others may (`PoweredAction.syncDir`). Power may fail between any two
operations (`Powered.during`).

Directories are there from the start.
-/

namespace KaidaDB

open PowerLoss (Op)

/-- The files of a data directory. -/
inductive Path where
  | log
  | logTmp
  | chunk (id : ChunkId)
  | chunkTmp (id : ChunkId)
deriving DecidableEq

inductive Directory where
  | index
  | fanOut (first second : String)
deriving DecidableEq, Repr

def Path.directory : Path → Directory
  | log | logTmp => .index
  | chunk id | chunkTmp id => .fanOut id.fanOut.1 id.fanOut.2

abbrev DiskOp := Op Path Directory UInt8

abbrev DataDisk := PowerLoss.Disk Path UInt8

variable (X : Crates)

/-! ## What a deed does to the disk -/

/-- `write_chunk` for a chunk without a file. -/
def createOps (id : ChunkId) (data : Bytes) : List DiskOp :=
  [.create (.chunkTmp id), .append (.chunkTmp id) (encodeChunk X data), .sync (.chunkTmp id),
    .rename (.chunkTmp id) (.chunk id), .syncDir (.fanOut id.fanOut.1 id.fanOut.2)]

/-- `compact`. -/
def compactOps (s : IndexState) : List DiskOp :=
  PowerLoss.replaceOps .logTmp .log ((Index.liveEntries s).map (entryLine X))

/-- `maybe_compact` compacts an index with so many entries in its log. -/
def CompactsAt (s : IndexState) (logEntries : Nat) : Prop :=
  compactionFloor ≤ logEntries ∧ compactionRatio * s.live ≤ logEntries

instance (s : IndexState) (logEntries : Nat) : Decidable (CompactsAt s logEntries) :=
  inferInstanceAs (Decidable (_ ∧ _))

/-- `append_entry`, with the sync and the compaction that follow the entry of a manifest. -/
def appendOps (s : Store) (entry : LogEntry) : List DiskOp :=
  let index := applyEntry s.index entry
  .append .log (entryLine X entry) ::
    if entry.ofManifest then
      (if s.durability = .sync then [.sync .log] else []) ++
        if CompactsAt index (s.logEntries + 1) then compactOps X index else []
    else []

def Deed.diskOps (s : Store) : Deed → List DiskOp
  | created id data => createOps X id data
  | unlinked id => if s.files.contains id.toHex then [.unlink (.chunk id)] else []
  | deed => (deed.appended? s.index).elim [] (appendOps X s)

/-! ## Runs -/

structure Powered where
  base : Machine
  disk : DataDisk

inductive PoweredAction where
  | call (action : Action)
  /-- The system, or another program, syncs a directory. -/
  | syncDir (dir : Directory)
deriving DecidableEq, Repr

namespace Powered

variable (p : Powered)

/-- What an action does to the disk in steps. -/
def ops : PoweredAction → List DiskOp
  | .call action => (p.base.deed X action).diskOps X p.base.store
  | .syncDir dir => [.syncDir dir]

/-- The disk after so many operations of an action. -/
def during (action : PoweredAction) (n : Nat) : DataDisk :=
  p.disk.run Path.directory ((p.ops X action).take n)

def step (p : Powered) (action : PoweredAction) : Powered where
  base := match action with
    | .call action => p.base.step X action
    | .syncDir _ => p.base
  disk := p.disk.run Path.directory (p.ops X action)

def run (p : Powered) : List PoweredAction → Powered
  | [] => p
  | action :: actions => (p.step X action).run actions

/-- `open_with` has created the log in an empty directory. -/
def start (engine : StorageEngine) (dataDir : String) : Powered where
  base :=
    let m := Machine.start engine dataDir
    { m with store := { m.store with durability := .sync } }
  disk
    | .log => ⟨some ⟨[], []⟩, .former none⟩
    | _ => ⟨none, .current⟩

/-- The store that an opening finds after a power loss. -/
structure Leaves (d : DataDisk) (t : Store) : Prop where
  log : ∃ left, (d .log).Leaves left ∧ t.log = left.getD []
  files : ∀ id : ChunkId, (d (.chunk id)).Leaves ((t.files[id.toHex]?).map ChunkFile.bytes)

end Powered

end KaidaDB
