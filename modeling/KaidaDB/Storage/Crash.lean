import KaidaDB.Storage.Spec

/-!
# Calls that the process does not survive

`SessionCalls` are the calls of one store session: it begins, writes some pieces and finishes. In
`World.crashed` the process ends between two operations on the disk that the session makes, and the
engine is opened again. `Event`s are complete calls and such crashes, `World.after` is the world
they lead to. An `Incident` is any one call on a disk that goes as planned, after which the process
may end, whatever sessions are open.
-/

namespace KaidaDB

variable (X : Crates)

/-- What a caller does with one store session. -/
structure SessionCalls where
  key : String
  contentType : String
  metadata : List (String × String)
  writes : List Bytes
deriving DecidableEq, Repr

/-- The session. A `write` that is refused leaves it as it was, and the caller goes on. -/
def StorageEngine.storeSession (engine : StorageEngine) (u : SessionCalls) : M MediaManifest := do
  let session ← engine.beginStore u.key u.contentType u.metadata
  withSession session do
    u.writes.forM fun data => tryCatch (StoreSession.write X data) fun _ => pure ()
    StoreSession.finish X

/-- The bytes the session accepts after those it has received. -/
def Spec.accepted (limit : Nat) : Bytes → List Bytes → Bytes
  | received, [] => received
  | received, data :: writes =>
    match mayWrite limit received data with
    | .ok () => accepted limit (received ++ data) writes
    | .error _ => accepted limit received writes

/-- The bytes of the object that the session stores. -/
def SessionCalls.accepted (u : SessionCalls) (engine : StorageEngine) : Bytes :=
  Spec.accepted engine.maxObjectSize [] u.writes

/-- The end of a process, and the opening of the engine that follows it. -/
structure Crash where
  /-- The appends to the log, renames of chunk files and removals that are made before. -/
  operations : Nat
  /-- A compaction that the last of these operations sets off is carried out as well. -/
  compacts : Bool
  engine : StorageEngine
  durability : Durability
deriving DecidableEq, Repr

/-- `n` operations are made, and none after them; `compacts` as in `Crash`. -/
def stopsAfter (n : Nat) (compacts : Bool) : Stream' IoPlan := fun i =>
  if i < n then .ok
  else if compacts then { IoPlan.stopped with compact := none }
  else .stopped

def Crash.io (crash : Crash) : Stream' IoPlan := stopsAfter crash.operations crash.compacts

namespace World

/-- The session runs to its end. -/
def completed (w : World) (u : SessionCalls) : World :=
  (w.onEngine (w.engine.storeSession X u) .manifest).1

/-- The process ends while the session runs, and the engine is opened again. -/
def crashed (w : World) (u : SessionCalls) (crash : Crash) : World :=
  let w1 := { w with store := { w.store with io := crash.io } }.completed X u
  let w2 := { w1 with store := { w1.store with io := Stream'.const .ok } }
  (w2.step X (.reopen crash.engine crash.durability)).1

/-- What is visible under a key: its manifest, and the reply to a read. -/
def object (w : World) (key : String) : Option MediaManifest × Reply :=
  (w.store.index.manifests[key]?, (w.step X (.read key)).2)

end World

/-- What happens to a world. -/
inductive Event where
  | call (call : Call)
  | crash (u : SessionCalls) (crash : Crash)
deriving DecidableEq, Repr

/-- The engine settings of the event have chunks of at least one byte. -/
def Event.Sized : Event → Prop
  | .call c => c.Sized
  | .crash _ stop => 0 < stop.engine.chunkSize

namespace World

def event (w : World) : Event → World
  | .call call => (w.step X call).1
  | .crash u crash => w.crashed X u crash

def after : World → List Event → World
  | w, [] => w
  | w, e :: events => (w.event X e).after events

end World

/-! ## What uploads receive

Uploads do not depend on the objects, so it is left open here whether a session that the process did
not survive has stored its own. -/

namespace Spec

def event (s : Spec) : Event → Spec
  | .call call => (s.step call).1
  | .crash _ crash => { s with engine := crash.engine, uploads := ∅ }

/-- All that the object which the event adds to has received with it. -/
def receivedWith (s : Spec) : Event → Bytes
  | .call call => s.received call
  | .crash u _ => u.accepted s.engine

/-- What the objects have received, event by event. -/
def receivedOver : Spec → List Event → List Bytes
  | _, [] => []
  | s, e :: events => s.receivedWith e :: (s.event e).receivedOver events

end Spec

/-! ## Ends of the process in any call -/

/-- What happens to an engine and the sessions open on it. -/
inductive Incident where
  /-- A call, with the plans for the disk. -/
  | call (call : Call) (io : Stream' IoPlan)
  /-- The process ends in the call, once the disk has done what it does under these plans, and all
  open sessions are lost. The engine is opened again. -/
  | died (call : Call) (io : Stream' IoPlan) (engine : StorageEngine) (durability : Durability)

def Incident.io : Incident → Stream' IoPlan
  | .call _ io | .died _ io _ _ => io

namespace World

/-- A call under these plans, and a working disk after it. -/
def under (w : World) (io : Stream' IoPlan) (call : Call) : World :=
  let w1 := ({ w with store := { w.store with io := io } }.step X call).1
  { w1 with store := { w1.store with io := Stream'.const .ok } }

/-- The engine is opened again, unless its log cannot be read. -/
def reopened (w : World) (engine : StorageEngine) (durability : Durability) : Option World :=
  match w.step X (.reopen engine durability) with
  | (w', .done) => some w'
  | _ => none

def incident (w : World) : Incident → Option World
  | .call call io => some (w.under X io call)
  | .died call io engine durability => (w.under X io call).reopened X engine durability

def afterIncidents : World → List Incident → Option World
  | w, [] => some w
  | w, e :: incidents => (w.incident X e).bind fun w' => w'.afterIncidents incidents

end World

/-! ## What a garbage collection leaves -/

/-- A visible manifest lists the chunk with this id. -/
def IndexState.Lists (s : IndexState) (hex : String) : Prop :=
  ∃ (key : String) (m : MediaManifest), s.manifests[key]? = some m ∧ ∃ id ∈ m.chunks, id.toHex = hex

/-- After a collection without grace the chunk files are those of the visible manifests. -/
def World.Reclaims (w : World) : Prop :=
  let w' := w.under X (Stream'.const .ok) (.gc 0)
  ∀ hex : String, (w'.store.files[hex]?).isSome ↔ w'.store.index.Lists hex

end KaidaDB
