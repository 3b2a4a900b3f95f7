import KaidaDB.Storage.Engine

/-!
# An engine with its open sessions

`World` is one process: an engine, its store and the sessions callers hold, each under a handle
number of their choice. `World.step` carries out one complete call, `World.run` a sequence of them.
`reopen` drops the engine with all its sessions and opens it again on the same directory, `drop` lets
a session go without finishing it, and `tick` lets the clock show another time.
-/

namespace KaidaDB

open Std

variable (X : Crates)

/-- A call on the engine or on a session. -/
inductive Call where
  | store (key : String) (data : Bytes) (contentType : String) (metadata : List (String × String))
  | begin (handle : Nat) (key contentType : String) (metadata : List (String × String))
  | write (handle : Nat) (data : Bytes)
  | finish (handle : Nat)
  | abort (handle : Nat)
  | drop (handle : Nat)
  | read (key : String)
  | delete (key : String)
  | rename (fromKey toKey : String)
  | gc (grace : Nat)
  | compact
  | reopen (engine : StorageEngine) (durability : Durability)
  | tick (now : Int)
deriving DecidableEq, Repr

/-- What a call returns. -/
inductive Reply where
  | manifest (m : MediaManifest)
  | done
  | bytes (data : Bytes)
  | deleted (found : Bool)
  | report (r : GcReport)
  | failed (e : Fail)
  /-- The handle is not that of an open session, or already is. -/
  | badHandle
deriving DecidableEq, Repr

/-- The engine settings of the calls have chunks of at least one byte. -/
def Call.Sized : Call → Prop
  | .reopen engine _ => 0 < engine.chunkSize
  | _ => True

structure World where
  engine : StorageEngine
  store : Store
  sessions : ExtTreeMap Nat StoreSession

namespace World

/-- A call on the engine. -/
def onEngine {α : Type} (w : World) (x : M α) (reply : α → Reply) : World × Reply :=
  match x w.store with
  | .ok a s => ({ w with store := s }, reply a)
  | .error e s => ({ w with store := s }, .failed e)

/-- A call that consumes a session. -/
def consume {α : Type} (w : World) (handle : Nat) (x : SM α) (reply : α → Reply) : World × Reply :=
  match w.sessions[handle]? with
  | none => (w, .badHandle)
  | some session =>
    { w with sessions := w.sessions.erase handle }.onEngine (withSession session x) reply

def step (w : World) : Call → World × Reply
  | .store key data contentType metadata =>
    w.onEngine (w.engine.storeWithMetadata X key data contentType metadata) .manifest
  | .begin handle key contentType metadata =>
    if w.sessions.contains handle then (w, .badHandle)
    else
      match w.engine.beginStore key contentType metadata w.store with
      | .ok session s => ({ w with
          store := s, sessions := w.sessions.insert handle session }, .done)
      | .error e s => ({ w with store := s }, .failed e)
  | .write handle data =>
    match w.sessions[handle]? with
    | none => (w, .badHandle)
    | some session =>
      match StoreSession.write X data (session, w.store) with
      | .ok _ p => ({ w with store := p.2, sessions := w.sessions.insert handle p.1 }, .done)
      | .error e p => ({ w with store := p.2, sessions := w.sessions.insert handle p.1 }, .failed e)
  | .finish handle => w.consume handle (StoreSession.finish X) .manifest
  | .abort handle => w.consume handle (StoreSession.abort X) fun _ => .done
  | .drop handle =>
    if w.sessions.contains handle then ({ w with sessions := w.sessions.erase handle }, .done)
    else (w, .badHandle)
  | .read key => w.onEngine (w.engine.read X key) .bytes
  | .delete key => w.onEngine (StorageEngine.delete X key) .deleted
  | .rename fromKey toKey => w.onEngine (StorageEngine.rename X fromKey toKey) .manifest
  | .gc grace => w.onEngine (StorageEngine.gc grace) .report
  | .compact => w.onEngine (Index.compact X) fun _ => .done
  | .reopen engine durability =>
    match Index.openWith X w.store durability with
    | .ok s => (⟨engine, s, ∅⟩, .done)
    | .error e => ({ w with sessions := ∅ }, .failed e)
  | .tick now => ({ w with store := { w.store with clock := now } }, .done)

/-- The calls in order, with their replies. -/
def run : World → List Call → World × List Reply
  | w, [] => (w, [])
  | w, call :: calls =>
    let (w1, reply) := w.step X call
    let (w2, replies) := w1.run calls
    (w2, reply :: replies)

/-- An engine opened on an empty directory. -/
def fresh (engine : StorageEngine) (dataDir : String) (io : Stream' IoPlan) : World :=
  ⟨engine, .emptyDir dataDir io, ∅⟩

/-- The states that complete calls without I/O errors lead to from an empty directory. -/
def Reachable (w : World) : Prop :=
  ∃ (engine : StorageEngine) (dataDir : String) (calls : List Call), 0 < engine.chunkSize ∧
    (∀ call ∈ calls, call.Sized) ∧
    w = ((fresh engine dataDir (Stream'.const .ok)).run X calls).1

end World

end KaidaDB
