import KaidaDB.Lib.Slices
import KaidaDB.Lib.Stops
import KaidaDB.Storage.World

/-!
# Sessions that go on after a failed write

`StoreSession.writeEach` makes every call of `write` on a session, also after one that failed.
A flush takes the buffer out of the session before it can fail, so `LosesNothing` looks at what the
plans hold for the flushes of a call: the call leaves the bytes accepted so far as they are if no flush
fails, or the first one does and nothing was buffered before.
-/

namespace KaidaDB

open Effects

variable (X : Crates)

/-- The append that takes a reference on a chunk fails. It is not synchronized. -/
def IoPlan.failsRef (plan : IoPlan) : Bool :=
  match plan.append with
  | some (.write _) => true
  | _ => false

/-- The first of the pieces whose flush the plans make fail. `stored` tells which chunk files there
are: where there is one, the flush takes no write. -/
def failingFlush : (String → Bool) → Stream' IoPlan → List Bytes → Option Nat
  | _, _, [] => none
  | stored, io, d :: rest =>
    let hex := (ChunkId.fromData X d).toHex
    let afterWrite := if stored hex then io else io.tail
    if (!stored hex && io.head.writeFails) || afterWrite.head.failsRef then some 0
    else (failingFlush (fun a => stored a || decide (a = hex)) afterWrite.tail rest).map (· + 1)

namespace StoreSession

/-- The call is refused for its size. -/
def Refuses (t : StoreSession) (data : Bytes) : Prop :=
  t.maxObjectSize ≠ 0 ∧ t.maxObjectSize < t.bytesWritten + data.length

instance (t : StoreSession) (data : Bytes) : Decidable (t.Refuses data) :=
  inferInstanceAs (Decidable (_ ∧ _))

/-- The flushes of a call of `write`: the first that fails. -/
def failing (t : StoreSession) (s : Store) (data : Bytes) : Option Nat :=
  failingFlush X (fun hex => s.files.contains hex) s.io
    (Slices.wholes t.chunkSize (t.buf ++ data))

/-- No flush of the call fails, or the first one does and has nothing but bytes of this call. -/
def LosesNothing (t : StoreSession) (s : Store) (data : Bytes) : Prop :=
  t.Refuses data ∨ t.failing X s data = none ∨ t.failing X s data = some 0 ∧ t.buf = []

instance (t : StoreSession) (s : Store) (data : Bytes) : Decidable (t.LosesNothing X s data) :=
  inferInstanceAs (Decidable (_ ∨ _))

/-- The calls of `write` in order: the data of those that returned `Ok`, and what is left. -/
def writeEach : List Bytes → StoreSession × Store → Bytes × StoreSession × Store
  | [], p => ([], p)
  | data :: rest, p =>
    match write X data p with
    | .ok _ q => (data ++ (writeEach rest q).1, (writeEach rest q).2)
    | .error _ q => writeEach rest q

/-- What the session has received with each of the calls, and after them. -/
def receivedWith : List Bytes → StoreSession × Store → List Bytes
  | [], p => [p.1.hasher ++ p.1.buf]
  | data :: rest, p => (p.1.hasher ++ p.1.buf ++ data) :: receivedWith rest (left (write X data p))

/-- How many of the calls do not meet `LosesNothing`, each in the state before it. -/
def losses : List Bytes → StoreSession × Store → Nat
  | [], _ => 0
  | data :: rest, p =>
    (if p.1.LosesNothing X p.2 data then 0 else 1) + losses rest (left (write X data p))

end StoreSession

/-- `finish`: what is read under the key of the session afterwards, if it returned `Ok`. -/
def StorageEngine.committed (engine : StorageEngine) (p : StoreSession × Store) :
    Option (Except Fail Bytes) :=
  match StoreSession.finish X p with
  | .ok _ q => some (returned (engine.read X p.1.key q.2))
  | .error _ _ => none

end KaidaDB
