import KaidaDB.Concurrent.Machine

/-!
# What an action does to index and files

Each action of the machine makes at most one change that others can see, its `Deed`, which the state
before it decides: a chunk file found, put in place or removed, a reference taken or dropped, a
manifest put or removed. `Deed.index` and `Deed.files` are its effects.
-/

namespace KaidaDB

open Std

variable (X : Crates)

inductive Deed where
  | nothing
  /-- `write_chunk` has found the file. -/
  | found (id : ChunkId)
  /-- It has put it in place. -/
  | created (id : ChunkId) (data : Bytes)
  | referenced (id : ChunkId) (path : String)
  | dropped (id : ChunkId)
  | unlinked (id : ChunkId)
  | put (manifest : MediaManifest)
  | removed (key : String)
deriving DecidableEq, Repr

/-- What an agent does next. -/
def Agent.deed (s : Store) : Agent → Deed
  | .checking _ chunk _ =>
    if s.files.contains (ChunkId.fromData X chunk).toHex then .found (ChunkId.fromData X chunk)
    else .nothing
  | .creating _ chunk _ => .created (ChunkId.fromData X chunk) chunk
  | .referencing _ chunk _ =>
    .referenced (ChunkId.fromData X chunk)
      (BlobStore.chunkPath s.dataDir (ChunkId.fromData X chunk))
  | .putting _ manifest _ | .moving _ _ manifest => .put manifest
  | .releasing _ (chunk :: _) => .dropped chunk
  | .unlinking _ chunk _ => .unlinked chunk
  | .removing key _ | .removingOld key _ _ => .removed key
  | _ => .nothing

def Machine.deed (m : Machine) : Action → Deed
  | .advance a => (m.agents[a]?).elim .nothing (Agent.deed X m.store)
  | _ => .nothing

namespace Deed

/-- The entry it writes to the log. -/
def appended? (s : IndexState) : Deed → Option LogEntry
  | referenced id path => some (.putChunkLocation id.toHex (addedRef s id path))
  | dropped id => (droppedRef s id).map EntryOp.entry
  | put manifest => some (.putManifest manifest)
  | removed key => some (.deleteManifest key)
  | _ => none

def index (s : IndexState) (deed : Deed) : IndexState := (deed.appended? s).elim s (applyEntry s)

def files (s : Store) : Deed → ExtTreeMap String ChunkFile
  | created id data => s.files.insert id.toHex ⟨encodeChunk X data, s.clock⟩
  | unlinked id => s.files.erase id.toHex
  | _ => s.files

/-- The chunk whose file it removes. -/
def unlinked? : Deed → Option ChunkId
  | unlinked id => some id
  | _ => none

end Deed

/-! ## Files without a reference -/

/-- The chunk whose file an agent has found or written without having taken the reference. -/
def Agent.holding? : Agent → Option ChunkId
  | .referencing _ chunk _ => some (ChunkId.fromData X chunk)
  | _ => none

/-- Some flush in progress holds the file of the chunk. -/
def Machine.InFlight (m : Machine) (id : ChunkId) : Prop :=
  ∃ p ∈ m.agents.toList, Agent.holding? X p.2 = some id

instance (m : Machine) (id : ChunkId) : Decidable (m.InFlight X id) :=
  inferInstanceAs (Decidable (∃ p ∈ m.agents.toList, Agent.holding? X p.2 = some id))

end KaidaDB
