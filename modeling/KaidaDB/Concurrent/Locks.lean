import KaidaDB.Concurrent.Machine
import KaidaDB.Lib.LockOrder

/-!
# The locks that calls take

The functions of the engine and of the index as programs on locks: where each lock is taken, and where
its guard is dropped, at the end of its block or on an early return. What does not concern locks
is left open: `data` stands for everything a branch, a loop or an I/O error depends on, with any answer.
The mutexes of keys are those of `key_locks`, looked up by name under the table's own lock; an `Arc`
that is cloned from the table keeps its entry from being pruned.
-/

namespace KaidaDB

namespace Locks

open Std LockOrder

/-- A mutex in `key_locks`; those made for the same key one after the other have different serials. -/
structure KeyMutex where
  key : String
  serial : Nat
deriving DecidableEq, Repr

inductive Lock where
  /-- The table of the mutexes. -/
  | keyLocks
  | key (mutex : KeyMutex)
  | chunkRefLock
  | compactLock
  | state
  | logFile
deriving DecidableEq, Repr

/-- `key_locks`, and the clones of its mutexes. -/
structure KeyLocks where
  /-- The serial of the mutex under each key. -/
  map : ExtTreeMap String Nat
  /-- How many mutexes have been made. -/
  made : Nat
  /-- The `Arc`s besides those in the map. -/
  clones : List KeyMutex
  /-- The `key_lock`s of the open sessions. -/
  sessions : List KeyMutex

def KeyLocks.empty : KeyLocks := ⟨∅, 0, [], []⟩

/-- What `key_lock` does under the lock of the table: the serial of the mutex. -/
def KeyLocks.lookup (k : KeyLocks) (key : String) : Nat × KeyLocks :=
  -- entries that the map alone holds are idle
  let map := if 1024 < k.map.size then k.map.filter fun key serial => ⟨key, serial⟩ ∈ k.clones
    else k.map
  match map[key]? with
  | some serial => (serial, { k with map, clones := ⟨key, serial⟩ :: k.clones })
  | none => (k.made, { k with
      map := map.insert key k.made, made := k.made + 1, clones := ⟨key, k.made⟩ :: k.clones })

/-- What a call asks. -/
inductive Query where
  | data
  | lookup (key : String)
  | clone (mutex : KeyMutex)
  | drop (mutex : KeyMutex)
  /-- A session keeps the mutex. -/
  | openSession (mutex : KeyMutex)
  /-- A call consumes a session with the mutex. -/
  | takeSession (mutex : KeyMutex)

def answer : Query → KeyLocks → Nat → Option (Nat × KeyLocks)
  | .data, k, n => some (n, k)
  | .lookup key, k, _ => some (k.lookup key)
  | .clone mutex, k, _ => some (0, { k with clones := mutex :: k.clones })
  | .drop mutex, k, _ => some (0, { k with clones := k.clones.erase mutex })
  | .openSession mutex, k, _ => some (0, { k with sessions := mutex :: k.sessions })
  | .takeSession mutex, k, _ =>
    if mutex ∈ k.sessions then some (0, { k with sessions := k.sessions.erase mutex }) else none

/-- Programs that may return early with an error. -/
abbrev LM := ExceptT Unit (Prog Lock Query)

def ask (query : Query) : LM Nat := ExceptT.lift (.ask query .pure)

def data : LM Nat := ask .data

/-- An operation that may return an error. -/
def mayFail : LM Unit := do
  if (← data) = 0 then throw ()

section
variable {α : Type}

/-- `let _guard = lock.lock()`, or `write()`, and what follows while the guard lives. -/
def locked (lock : Lock) (body : LM α) : LM α := ExceptT.mk (Prog.locked false lock body.run)

/-- The same with `read()`. -/
def reading (lock : Lock) (body : LM α) : LM α := ExceptT.mk (Prog.locked true lock body.run)

/-- `if let Some(_g) = lock.try_lock()`; errors in the body are dropped. -/
def tryLocked (lock : Lock) (body : LM Unit) : LM Unit :=
  ExceptT.lift (Prog.lockedIfFree lock (body.run.bind fun _ => .pure ()))

def ignoreError (x : LM Unit) : LM Unit := ExceptT.lift (x.run.bind fun _ => .pure ())

/-- A local `Arc`, dropped after the guards on it. -/
def owning (mutex : KeyMutex) (body : LM α) : LM α :=
  ExceptT.mk (body.run.bind fun r => .ask (.drop mutex) fun _ => .pure r)

/-- A loop with as many iterations. -/
def times (x : LM Unit) : Nat → LM Unit
  | 0 => pure ()
  | n + 1 => do
    x
    times x n

end

/-! ## The index -/

def appendEntry : LM Unit := do
  mayFail
  locked .logFile do
    -- the write, `flush` and `sync_data`
    mayFail
    mayFail
    mayFail

def compact : LM Unit := do
  -- the temporary file is written under the guard, which is dropped before the rename
  reading .state mayFail
  mayFail
  mayFail
  locked .logFile (pure ())

def maybeCompact : LM Unit := do
  if (← data) = 0 then return
  let live ← reading .state data
  if (← data) < live then return
  tryLocked .compactLock compact

def putManifest : LM Unit := do
  appendEntry
  locked .state (pure ())
  maybeCompact

def deleteManifest : LM Unit := do
  appendEntry
  locked .state (pure ())
  maybeCompact

/-- The number of chunks of the manifest, if there is one. -/
def getManifest : LM (Option Nat) := reading .state do
  match ← data with
  | 0 => return none
  | n + 1 => return some n

def putChunkLocation : LM Unit := do
  appendEntry
  locked .state (pure ())

def deleteChunkLocation : LM Unit := do
  appendEntry
  locked .state (pure ())

def addChunkRef : LM Unit := locked .chunkRefLock do
  reading .state (pure ())
  putChunkLocation

def decrementChunkRef : LM Bool := locked .chunkRefLock do
  match ← reading .state data with
  | 0 => return false
  | 1 =>
    deleteChunkLocation
    return true
  | _ =>
    putChunkLocation
    return false

/-! ## The engine -/

def keyLock (key : String) : LM KeyMutex := locked .keyLocks do
  return ⟨key, ← ask (.lookup key)⟩

def beginStore (key : String) : LM Unit := do
  -- `validate_key`
  mayFail
  let mutex ← keyLock key
  let _ ← ask (.openSession mutex)

def flushChunk : LM Unit := do
  if (← data) = 0 then return
  -- `write_chunk`
  mayFail
  addChunkRef

def write : LM Unit := do
  mayFail
  times flushChunk (← data)

def releaseReplaced : LM Unit := do
  if ← decrementChunkRef then
    ignoreError mayFail

def finish (mutex : KeyMutex) : LM Unit := do
  let _ ← ask (.takeSession mutex)
  owning mutex do
    flushChunk
    let _ ← ask (.clone mutex)
    owning mutex do
      locked (.key mutex) do
        let previous ← getManifest
        putManifest
        match previous with
        | some chunks => times releaseReplaced chunks
        | none => return

def releaseAborted : LM Unit := ignoreError do
  if ← decrementChunkRef then
    ignoreError mayFail

def abort (mutex : KeyMutex) : LM Unit := do
  let _ ← ask (.takeSession mutex)
  owning mutex (do times releaseAborted (← data))

/-- A session is dropped without `finish` or `abort`. -/
def dropSession (mutex : KeyMutex) : LM Unit := do
  let _ ← ask (.takeSession mutex)
  owning mutex (pure ())

def releaseDeleted : LM Unit := do
  if ← decrementChunkRef then
    mayFail

def delete (key : String) : LM Bool := do
  let lock ← keyLock key
  owning lock do
    locked (.key lock) do
      match ← getManifest with
      | none => return false
      | some chunks =>
        times releaseDeleted chunks
        deleteManifest
        return true

def rename (fromKey toKey : String) : LM Unit := do
  mayFail
  if fromKey = toKey then throw ()
  let lockA ← keyLock (firstLock fromKey toKey)
  owning lockA do
    let lockB ← keyLock (secondLock fromKey toKey)
    owning lockB do
      locked (.key lockA) do
        locked (.key lockB) do
          if (← getManifest).isNone then throw ()
          if (← getManifest).isSome then throw ()
          putManifest
          deleteManifest

/-- A call. `look` is any that only reads the index, like `get_manifest` and `list`. -/
inductive LockingCall where
  | beginStore (key : String)
  | write
  | finish (mutex : KeyMutex)
  | abort (mutex : KeyMutex)
  | dropSession (mutex : KeyMutex)
  | delete (key : String)
  | rename (fromKey toKey : String)
  | look
  | compact
deriving DecidableEq, Repr

def LockingCall.run : LockingCall → LM Unit
  | .beginStore key => Locks.beginStore key
  | .write => Locks.write
  | .finish mutex => Locks.finish mutex
  | .abort mutex => Locks.abort mutex
  | .dropSession mutex => Locks.dropSession mutex
  | .delete key => do let _ ← Locks.delete key
  | .rename fromKey toKey => Locks.rename fromKey toKey
  | .look => do let _ ← getManifest
  | .compact => Locks.compact

/-- What a thread does in a call. -/
def LockingCall.program (call : LockingCall) : Prog Lock Query Unit :=
  call.run.run.bind fun _ => .pure ()

end Locks

end KaidaDB
