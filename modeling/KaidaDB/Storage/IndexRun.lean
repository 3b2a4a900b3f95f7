import KaidaDB.Storage.Index

/-!
# Runs of index operations

The public operations of `Index` that write to the log, as data, and what a sequence of them does
to a store whose file system may fail: an operation that returns an error leaves the process
running and the next one starts from the store as it is. `attempts` are the entries the operations
tried to write, each with whether its operation returned `Ok`.
-/

namespace KaidaDB

variable (X : Crates)

/-- The operations that write one given entry. -/
inductive EntryOp where
  | putManifest (m : MediaManifest)
  | deleteManifest (key : String)
  | putChunkLocation (id : ChunkId) (loc : ChunkLocation)
  | deleteChunkLocation (id : ChunkId)
deriving DecidableEq, Repr

namespace EntryOp

def entry : EntryOp → LogEntry
  | putManifest m => .putManifest m
  | deleteManifest key => .deleteManifest key
  | putChunkLocation id loc => .putChunkLocation id.toHex loc
  | deleteChunkLocation id => .deleteChunkLocation id.toHex

def run : EntryOp → M Unit
  | putManifest m => Index.putManifest X m
  | deleteManifest key => Index.deleteManifest X key
  | putChunkLocation id loc => Index.putChunkLocation X id loc
  | deleteChunkLocation id => Index.deleteChunkLocation X id

end EntryOp

inductive IndexOp where
  | put (op : EntryOp)
  | addChunkRef (id : ChunkId) (path : String)
  | decrementChunkRef (id : ChunkId)
  | compact
deriving DecidableEq, Repr

/-! ## The entries of reference counting -/

/-- The reference count of a chunk, 0 if it is not indexed. -/
def IndexState.refCount (s : IndexState) (id : ChunkId) : Nat :=
  (s.chunkLocations[id.toHex]?).elim 0 ChunkLocation.refCount

/-- The location `add_chunk_ref` puts. -/
def addedRef (s : IndexState) (id : ChunkId) (path : String) : ChunkLocation :=
  match s.chunkLocations[id.toHex]? with
  | some loc => { loc with refCount := loc.refCount + 1 }
  | none => { path, refCount := 1 }

/-- What `decrement_chunk_ref` writes, if it writes anything. -/
def droppedRef (s : IndexState) (id : ChunkId) : Option EntryOp :=
  (s.chunkLocations[id.toHex]?).map fun loc =>
    if loc.refCount ≤ 1 then .deleteChunkLocation id
    else .putChunkLocation id { loc with refCount := loc.refCount - 1 }

/-- What `decrement_chunk_ref` returns: the reference was the last one. -/
def lastRef (s : IndexState) (id : ChunkId) : Bool :=
  (s.chunkLocations[id.toHex]?).any fun loc => loc.refCount ≤ 1

namespace IndexOp

/-- The entry an operation tries to write. -/
def write? (s : IndexState) : IndexOp → Option EntryOp
  | put op => some op
  | addChunkRef id path => some (.putChunkLocation id (addedRef s id path))
  | decrementChunkRef id => droppedRef s id
  | compact => none

def run : IndexOp → M Unit
  | put op => op.run X
  | addChunkRef id path => Index.addChunkRef X id path
  | decrementChunkRef id => discard (Index.decrementChunkRef X id)
  | compact => Index.compact X

end IndexOp

/-! ## Calls and reopening -/

/-- Close and open. -/
def Index.reopen (durability : Durability) : M Unit := fun s =>
  match Index.openWith X s durability with
  | .ok s' => .ok () s'
  | .error e => .error e s

inductive IndexCall where
  | index (op : IndexOp)
  | reopen (durability : Durability)
deriving DecidableEq, Repr

def IndexCall.run : IndexCall → M Unit
  | index op => op.run X
  | reopen durability => Index.reopen X durability

/-- Calls one after another, up to the first that fails. -/
def runCalls : List IndexCall → M Unit
  | [] => pure ()
  | call :: calls => do
    call.run X
    runCalls calls

/-! ## Runs -/

/-- What a call leaves behind, whatever it returned. -/
def storeAfter {α : Type} : EStateM.Result Fail Store α → Store
  | .ok _ s => s
  | .error _ s => s

def returnedOk {α : Type} : EStateM.Result Fail Store α → Bool
  | .ok _ _ => true
  | .error _ _ => false

/-- The store after a sequence of operations. -/
def runOps : List IndexOp → Store → Store
  | [], s => s
  | op :: ops, s => runOps ops (storeAfter (op.run X s))

/-- The entries the operations tried to write and whether they returned `Ok`. -/
def attempts : List IndexOp → Store → List (LogEntry × Bool)
  | [], _ => []
  | op :: ops, s =>
    ((op.write? s.index).map fun w => (w.entry, returnedOk (op.run X s))).toList
      ++ attempts ops (storeAfter (op.run X s))

end KaidaDB
