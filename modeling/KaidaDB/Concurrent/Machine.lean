import KaidaDB.Storage.Engine
import KaidaDB.Storage.IndexRun

/-!
# Calls running at the same time

Any number of agents share one engine: sessions with the calls made on them, deletes and renames.
An agent's state says where in the source its call is and holds the local variables that are still
needed there; `Machine.advance` carries out what comes up to and with its next access to shared
data. Atomic are the operations of the index (each under its own lock in the source), looking for a
chunk file, putting one in place, removing one, and taking or releasing the mutex of a key.
-/

namespace KaidaDB

open Std

variable (X : Crates)

/-- What a flush returns to. -/
inductive Next where
  /-- The loop of `write`, with the data still to be taken. -/
  | loop (rest : Bytes)
  /-- `finish`. -/
  | commit
deriving DecidableEq, Repr

/-- Whose references are being dropped, one after the other. -/
inductive Release where
  /-- Those of the version that `finish` has replaced; the lock of the key is held. -/
  | replaced (key : String)
  /-- Those of the object that `delete` is about to remove; the lock of the key is held. -/
  | deleted (key : String) (manifest : MediaManifest)
  /-- Those of an aborted session. -/
  | aborted
deriving DecidableEq, Repr

inductive Agent where
  /-- An open session, no call on it. -/
  | idle (session : StoreSession)
  /-- In the loop of `write`. -/
  | writing (session : StoreSession) (rest : Bytes)
  /-- `write_chunk` is about to look for the file. -/
  | checking (session : StoreSession) (chunk : Bytes) (next : Next)
  /-- There was none: it is about to put it in place. -/
  | creating (session : StoreSession) (chunk : Bytes) (next : Next)
  /-- The file was there or has been written: `add_chunk_ref` comes next. -/
  | referencing (session : StoreSession) (chunk : Bytes) (next : Next)
  /-- `finish` has flushed and reads the clock. -/
  | committing (session : StoreSession)
  /-- It has its manifest and waits for the lock of the key. -/
  | locking (session : StoreSession) (manifest : MediaManifest)
  /-- It holds the lock and looks for a previous version. -/
  | looking (session : StoreSession) (manifest : MediaManifest)
  /-- It is about to put the manifest. -/
  | putting (session : StoreSession) (manifest : MediaManifest) (previous : Option MediaManifest)
  /-- About to decrement the count of the first chunk. -/
  | releasing (why : Release) (chunks : List ChunkId)
  /-- The count has reached zero: about to remove the file. -/
  | unlinking (why : Release) (chunk : ChunkId) (chunks : List ChunkId)
  /-- `delete` waits for the lock of the key. -/
  | deleting (key : String)
  /-- It holds the lock and looks for the manifest. -/
  | deleteLooking (key : String)
  /-- It has dropped the references and is about to remove the manifest. -/
  | removing (key : String) (manifest : MediaManifest)
  /-- `rename` waits for the first of its locks. -/
  | renameLocking (fromKey toKey : String)
  /-- It holds the first one and waits for the second. -/
  | renamingLocked (fromKey toKey : String)
  /-- It holds both and looks for the manifest. -/
  | renameLooking (fromKey toKey : String)
  /-- It has found it and looks for one under the new key. -/
  | renameChecking (fromKey toKey : String) (manifest : MediaManifest)
  /-- There was none: it is about to put the manifest under the new key. -/
  | moving (fromKey toKey : String) (manifest : MediaManifest)
  /-- It is about to remove the one under the old key. -/
  | removingOld (fromKey toKey : String) (manifest : MediaManifest)
deriving DecidableEq, Repr

/-- The locks of `rename` in the order it takes them. -/
def firstLock (fromKey toKey : String) : String := if fromKey < toKey then fromKey else toKey

def secondLock (fromKey toKey : String) : String := if fromKey < toKey then toKey else fromKey

/-- The locks an agent holds. -/
def Agent.holds : Agent → List String
  | .looking _ manifest | .putting _ manifest _ => [manifest.key]
  | .releasing (.replaced key) _ | .unlinking (.replaced key) _ _ => [key]
  | .releasing (.deleted key _) _ | .unlinking (.deleted key _) _ _ => [key]
  | .deleteLooking key | .removing key _ => [key]
  | .renamingLocked fromKey toKey => [firstLock fromKey toKey]
  | .renameLooking fromKey toKey | .renameChecking fromKey toKey _ | .moving fromKey toKey _
  | .removingOld fromKey toKey _ => [firstLock fromKey toKey, secondLock fromKey toKey]
  | _ => []

structure Machine where
  engine : StorageEngine
  store : Store
  agents : ExtTreeMap Nat Agent
  /-- The agents that hold the mutexes of `key_locks`. -/
  locks : ExtTreeMap String Nat

/-- What may happen next; an action that is not possible changes nothing. -/
inductive Action where
  | begin (agent : Nat) (key contentType : String) (metadata : List (String × String))
  | write (agent : Nat) (data : Bytes)
  | finish (agent : Nat)
  | abort (agent : Nat)
  | delete (agent : Nat) (key : String)
  | rename (agent : Nat) (fromKey toKey : String)
  /-- The agent goes on with its call. -/
  | advance (agent : Nat)
  | tick (now : Int)
deriving DecidableEq, Repr

namespace Machine

variable (m : Machine) (a : Nat)

def become (agent : Agent) : Machine := { m with agents := m.agents.insert a agent }

/-- The call ends: the agent's locks are released with its guards. -/
def leave (agent : Agent) : Machine :=
  { m with
    agents := m.agents.erase a
    locks := agent.holds.foldl (fun locks key => locks.erase key) m.locks }

/-- Takes the lock of a key, or waits. -/
def lock (key : String) (agent : Agent) : Machine :=
  if m.locks.contains key then m
  else { m with locks := m.locks.insert key a, agents := m.agents.insert a agent }

/-- An operation on the store, and what the agent does with its value or after its failure. -/
def exec {α : Type} (x : M α) (ok : Machine → α → Machine) (failed : Machine → Machine) : Machine :=
  match x m.store with
  | .ok v s => ok { m with store := s } v
  | .error _ s => failed { m with store := s }

/-- Back from a flush. -/
def resume (session : StoreSession) : Next → Machine
  | .loop rest => m.become a (.writing session rest)
  | .commit => m.become a (.committing session)

/-- A flush that fails: `write` returns the error, `finish` drops its session. -/
def flushFailed (session : StoreSession) : Next → Machine
  | .loop _ => m.become a (.idle session)
  | .commit => { m with agents := m.agents.erase a }

/-- `flush_chunk`: the buffer is taken. -/
def flush (session : StoreSession) (next : Next) : Machine :=
  if session.buf = [] then m.resume a session next
  else m.become a (.checking { session with buf := [] } session.buf next)

/-- A decrement fails: only `abort` goes on. -/
def decrementFailed (why : Release) (chunk : ChunkId) (chunks : List ChunkId) : Machine :=
  match why with
  | .aborted => m.become a (.releasing why chunks)
  | _ => m.leave a (.releasing why (chunk :: chunks))

/-- The removal of a file fails: only `delete` minds. -/
def unlinkFailed (why : Release) (chunk : ChunkId) (chunks : List ChunkId) : Machine :=
  match why with
  | .deleted _ _ => m.leave a (.unlinking why chunk chunks)
  | _ => m.become a (.releasing why chunks)

def advance : Agent → Machine
  | .idle _ => m
  | .writing session rest =>
    if rest = [] then m.become a (.idle session)
    else
      let taken := min (session.chunkSize - session.buf.length) rest.length
      let session := { session with buf := session.buf ++ rest.take taken }
      if session.chunkSize ≤ session.buf.length then m.flush a session (.loop (rest.drop taken))
      else m.become a (.writing session (rest.drop taken))
  | .checking session chunk next =>
    m.exec (BlobStore.chunkExists (ChunkId.fromData X chunk))
      (fun m found => m.become a
        (if found then .referencing session chunk next else .creating session chunk next))
      (fun m => m.flushFailed a session next)
  | .creating session chunk next =>
    m.exec (BlobStore.createChunk X (ChunkId.fromData X chunk) chunk)
      (fun m _ => m.become a (.referencing session chunk next))
      (fun m => m.flushFailed a session next)
  | .referencing session chunk next =>
    m.exec (Index.addChunkRef X (ChunkId.fromData X chunk)
        (BlobStore.chunkPath m.store.dataDir (ChunkId.fromData X chunk)))
      (fun m _ => m.resume a (session.addChunk (ChunkId.fromData X chunk) chunk) next)
      (fun m => m.flushFailed a session next)
  | .committing session =>
    m.exec nowSecs (fun m now => m.become a (.locking session (session.manifest X now))) id
  | .locking session manifest => m.lock a manifest.key (.looking session manifest)
  | .looking session manifest =>
    m.exec (Index.getManifest manifest.key)
      (fun m previous => m.become a (.putting session manifest previous))
      (fun m => m.leave a (.looking session manifest))
  | .putting session manifest previous =>
    m.exec (Index.putManifest X manifest)
      (fun m _ => m.become a
        (.releasing (.replaced manifest.key) (previous.elim [] MediaManifest.chunks)))
      (fun m => m.leave a (.putting session manifest previous))
  | .releasing why [] =>
    match why with
    | .deleted key manifest => m.become a (.removing key manifest)
    | _ => m.leave a (.releasing why [])
  | .releasing why (chunk :: chunks) =>
    m.exec (Index.decrementChunkRef X chunk)
      (fun m last => m.become a
        (if last then .unlinking why chunk chunks else .releasing why chunks))
      (fun m => m.decrementFailed a why chunk chunks)
  | .unlinking why chunk chunks =>
    m.exec (BlobStore.deleteChunk chunk) (fun m _ => m.become a (.releasing why chunks))
      (fun m => m.unlinkFailed a why chunk chunks)
  | .deleting key => m.lock a key (.deleteLooking key)
  | .deleteLooking key =>
    m.exec (Index.getManifest key)
      (fun m found => match found with
        | none => m.leave a (.deleteLooking key)
        | some manifest => m.become a (.releasing (.deleted key manifest) manifest.chunks))
      (fun m => m.leave a (.deleteLooking key))
  | .removing key manifest =>
    m.exec (Index.deleteManifest X key) (fun m _ => m.leave a (.removing key manifest))
      (fun m => m.leave a (.removing key manifest))
  | .renameLocking fromKey toKey =>
    m.lock a (firstLock fromKey toKey) (.renamingLocked fromKey toKey)
  | .renamingLocked fromKey toKey =>
    m.lock a (secondLock fromKey toKey) (.renameLooking fromKey toKey)
  | .renameLooking fromKey toKey =>
    m.exec (Index.getManifest fromKey)
      (fun m found => match found with
        | none => m.leave a (.renameLooking fromKey toKey)
        | some manifest => m.become a (.renameChecking fromKey toKey manifest))
      (fun m => m.leave a (.renameLooking fromKey toKey))
  | .renameChecking fromKey toKey manifest =>
    m.exec (do return (← Index.getManifest toKey, ← nowSecs))
      (fun m found => match found with
        | (some _, _) => m.leave a (.renameChecking fromKey toKey manifest)
        | (none, now) => m.become a
          (.moving fromKey toKey { manifest with key := toKey, updatedAt := now }))
      (fun m => m.leave a (.renameChecking fromKey toKey manifest))
  | .moving fromKey toKey manifest =>
    m.exec (Index.putManifest X manifest)
      (fun m _ => m.become a (.removingOld fromKey toKey manifest))
      (fun m => m.leave a (.moving fromKey toKey manifest))
  | .removingOld fromKey toKey manifest =>
    m.exec (Index.deleteManifest X fromKey)
      (fun m _ => m.leave a (.removingOld fromKey toKey manifest))
      (fun m => m.leave a (.removingOld fromKey toKey manifest))

/-- A call on a session that is not in one. -/
def onIdle (call : StoreSession → Machine) : Machine :=
  match m.agents[a]? with
  | some (.idle session) => call session
  | _ => m

/-- A new agent. -/
def enter (call : Machine) : Machine := if m.agents.contains a then m else call

def step (m : Machine) : Action → Machine
  | .begin a key contentType metadata => m.enter a
    (m.exec (m.engine.beginStore key contentType metadata)
      (fun m session => m.become a (.idle session)) id)
  | .write a data => m.onIdle a fun session =>
    -- otherwise `write` returns an error and the session stays as it is
    if session.maxObjectSize ≠ 0 ∧ session.maxObjectSize < session.bytesWritten + data.length then m
    else m.become a (.writing session data)
  | .finish a => m.onIdle a fun session => m.flush a session .commit
  | .abort a => m.onIdle a fun session =>
    m.become a (.releasing .aborted session.referencedChunks)
  | .delete a key => m.enter a (m.become a (.deleting key))
  | .rename a fromKey toKey => m.enter a
    (m.exec (check (validateKey toKey))
      (fun m _ => if fromKey = toKey then m else m.become a (.renameLocking fromKey toKey)) id)
  | .advance a =>
    match m.agents[a]? with
    | some agent => m.advance X a agent
    | none => m
  | .tick now => { m with store := { m.store with clock := now } }

def run (m : Machine) : List Action → Machine
  | [] => m
  | action :: actions => (m.step X action).run actions

/-- An engine opened on an empty directory that nobody uses yet; the file system works. -/
def start (engine : StorageEngine) (dataDir : String) : Machine :=
  ⟨engine, .emptyDir dataDir (Stream'.const .ok), ∅, ∅⟩

end Machine

end KaidaDB
