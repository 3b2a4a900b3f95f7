import KaidaDB.Concurrent.Deed
import KaidaDB.Concurrent.Pending

/-!
# Calls whose entries are appended and applied in two steps

The machine of concurrent calls with the operations of the index taken apart: `add_chunk_ref` and
`decrement_chunk_ref` take the `chunk_ref_lock`, read the location, append the entry, change the state
and release the lock; `put_manifest` and `delete_manifest` append and change the state. Between any two
of these steps other agents may go on. Nothing compacts.
-/

namespace KaidaDB

open Std

variable (X : Crates)

/-- Where in an operation of the index an agent is. -/
inductive Phase where
  /-- It holds the `chunk_ref_lock` and is about to read the location. -/
  | locked
  /-- It is about to append its entry; `last` is what a decrement will return. -/
  | writing (entry : LogEntry) (last : Bool)
  /-- The entry is appended: it is about to change the state. -/
  | applying (entry : LogEntry) (last : Bool)
deriving DecidableEq, Repr

/-- The operations that sync their entry. -/
def LogEntry.ofManifest : LogEntry → Bool
  | putManifest _ | deleteManifest _ => true
  | putChunkLocation _ _ | deleteChunkLocation _ => false

/-- What `decrement_chunk_ref` returns. -/
def Deed.last (s : IndexState) : Deed → Bool
  | dropped id => lastRef s id
  | _ => false

namespace Machine

variable (m : Machine) (a : Nat)

/-- What an agent does after its operation on the index. -/
def returned (last : Bool) : Agent → Machine
  | .referencing session chunk next =>
    m.resume a (session.addChunk (ChunkId.fromData X chunk) chunk) next
  | .putting _ manifest previous =>
    m.become a (.releasing (.replaced manifest.key) (previous.elim [] MediaManifest.chunks))
  | .releasing why (chunk :: chunks) =>
    m.become a (if last then .unlinking why chunk chunks else .releasing why chunks)
  | .moving fromKey toKey manifest => m.become a (.removingOld fromKey toKey manifest)
  | agent => m.leave a agent

/-- What it does after one that failed. -/
def indexFailed : Agent → Machine
  | .referencing session _ next => m.flushFailed a session next
  | .releasing why (chunk :: chunks) => m.decrementFailed a why chunk chunks
  | agent => m.leave a agent

end Machine

structure LogMachine where
  base : Machine
  /-- The agents that are inside an operation of the index. -/
  phases : ExtTreeMap Nat Phase
  /-- The agent that holds the `chunk_ref_lock`. -/
  refLock : Option Nat

namespace LogMachine

variable (m : LogMachine) (a : Nat)

/-- The operation returns, and its guard is dropped. -/
def done (base : Machine) : LogMachine :=
  ⟨base, m.phases.erase a, if m.refLock = some a then none else m.refLock⟩

def append (agent : Agent) (entry : LogEntry) (last : Bool) : LogMachine :=
  match Index.appendEntry X entry entry.ofManifest m.base.store with
  | .ok _ s =>
    { m with
      base := { m.base with store := s }
      phases := m.phases.insert a (.applying entry last) }
  | .error _ s => m.done a (({ m.base with store := s } : Machine).indexFailed a agent)

def apply (agent : Agent) (entry : LogEntry) (last : Bool) : LogMachine :=
  let store := { m.base.store with index := applyEntry m.base.store.index entry }
  m.done a (({ m.base with store } : Machine).returned X a last agent)

/-- Takes the `chunk_ref_lock`, or waits. -/
def lockRefs : LogMachine :=
  if m.refLock.isSome then m
  else { m with refLock := some a, phases := m.phases.insert a .locked }

/-- The location is read: there is an entry to write unless nothing is to be decremented. -/
def readRef (agent : Agent) : LogMachine :=
  let deed := agent.deed X m.base.store
  match deed.appended? m.base.store.index with
  | some entry =>
    { m with phases := m.phases.insert a (.writing entry (deed.last m.base.store.index)) }
  | none => m.done a (m.base.returned X a false agent)

def advance (agent : Agent) : LogMachine :=
  match m.phases[a]? with
  | none =>
    match agent.deed X m.base.store with
    | .put manifest => m.append X a agent (.putManifest manifest) false
    | .removed key => m.append X a agent (.deleteManifest key) false
    | .referenced _ _ | .dropped _ => m.lockRefs a
    | _ => { m with base := m.base.advance X a agent }
  | some .locked => m.readRef X a agent
  | some (.writing entry last) => m.append X a agent entry last
  | some (.applying entry last) => m.apply X a agent entry last

def step (m : LogMachine) : Action → LogMachine
  | .advance a => (m.base.agents[a]?).elim m (m.advance X a)
  | action => { m with base := m.base.step X action }

def run (m : LogMachine) : List Action → LogMachine
  | [] => m
  | action :: actions => (m.step X action).run actions

/-- An engine opened on an empty directory that nobody uses yet; the file system works. -/
def start (engine : StorageEngine) (dataDir : String) : LogMachine :=
  ⟨.start engine dataDir, ∅, none⟩

/-- No call is in progress. -/
def Quiet (m : LogMachine) : Prop :=
  ∀ (a : Nat) agent, m.base.agents[a]? = some agent → ∃ session, agent = .idle session

end LogMachine

end KaidaDB
