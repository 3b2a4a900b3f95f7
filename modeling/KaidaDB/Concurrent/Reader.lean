import KaidaDB.Concurrent.GcMachine

/-!
# A read while other calls run

`read` next to the machine of concurrent calls and any number of passes of `gc`. It looks up the
manifest of its key, and then takes the chunks of it one by one: it sees that the file is there, and
opens and maps it in a step of its own. A mapped file keeps its contents, as files are put in place
and removed as a whole. Between any two of these steps the others go on. `Contents` is what the
clients know: the bytes of every upload, and those of the object under every key.
-/

namespace KaidaDB

open Std

variable (X : Crates)

/-- `read_chunk`, once it has seen the file: it may be gone when it is opened. -/
def BlobStore.openChunk (s : Store) (chunkId : ChunkId) : Except Fail Bytes :=
  match s.files[chunkId.toHex]? with
  | none => .error ioError
  | some f => decodeChunk X f.bytes

/-- `verify_on_read`: the checksum of the whole object. -/
def StorageEngine.verify (engine : StorageEngine) (key : String) (manifest : MediaManifest)
    (buf : Bytes) : Except Fail Bytes :=
  let actual := String.ofList (hexEncode (X.sha256 buf).toList)
  if engine.verifyOnRead && manifest.checksum ≠ "" then
    if actual ≠ manifest.checksum then
      .error (.error (.chunkIntegrity key
        s!"full-object checksum mismatch: stored={manifest.checksum}, computed={actual}"))
    else .ok buf
  else .ok buf

/-- Where in `read` the reader is. -/
inductive Reader where
  /-- It looks for the file of the first of the chunks; `buf` has those before it. -/
  | seeking (manifest : MediaManifest) (chunks : List ChunkId) (buf : Bytes)
  /-- It has seen the file, and is about to open it. -/
  | opening (manifest : MediaManifest) (chunk : ChunkId) (chunks : List ChunkId) (buf : Bytes)
  | done (result : Except Fail Bytes)
deriving DecidableEq, Repr

namespace Reader

/-- The lookup of the manifest. -/
def lookup (key : String) (s : Store) : Reader :=
  match s.index.manifests[key]? with
  | none => done (.error (.error (.notFound key)))
  | some manifest => seeking manifest manifest.chunks []

def advance (engine : StorageEngine) (key : String) (s : Store) : Reader → Reader
  | seeking manifest [] buf => done (engine.verify X key manifest buf)
  | seeking manifest (chunk :: chunks) buf =>
    if s.files.contains chunk.toHex then opening manifest chunk chunks buf
    else done (.error (.error (.notFound s!"chunk not found: {chunk.toHex}")))
  | opening manifest chunk chunks buf =>
    match BlobStore.openChunk X s chunk with
    | .ok data => seeking manifest chunks (buf ++ data)
    | .error e => done (.error e)
  | done result => done result

end Reader

/-! ## What runs beside it -/

/-- Calls, and passes of `gc`. -/
structure Traffic where
  base : Machine
  passes : ExtTreeMap Nat Pass

inductive TrafficAction where
  | call (action : Action)
  /-- `gc` is called and takes its snapshot of the index. -/
  | gc (pass : Nat) (grace : Nat)
  /-- The pass goes on. -/
  | collect (pass : Nat)
deriving DecidableEq, Repr

namespace Traffic

def step (t : Traffic) : TrafficAction → Traffic
  | .call action => { t with base := t.base.step X action }
  | .gc p grace =>
    if t.passes.contains p then t
    else
      { t with
        passes := t.passes.insert p (.clocking grace t.base.store.index.chunkLocations.keys) }
  | .collect p =>
    match t.passes[p]? with
    | none => t
    | some pass =>
      let m := GcMachine.collect ⟨t.base, some pass⟩ pass
      ⟨m.base, m.pass.elim (t.passes.erase p) (t.passes.insert p)⟩

def run (t : Traffic) : List TrafficAction → Traffic
  | [] => t
  | action :: actions => (t.step X action).run actions

/-- An engine opened on an empty directory that nobody uses yet; the file system works. -/
def start (engine : StorageEngine) (dataDir : String) : Traffic := ⟨.start engine dataDir, ∅⟩

end Traffic

/-- A read that is running next to the rest. -/
structure Reading where
  base : Traffic
  key : String
  reader : Reader

inductive ReadAction where
  | other (action : TrafficAction)
  /-- The reader goes on. -/
  | advance
deriving DecidableEq, Repr

namespace Reading

/-- `read` is called and looks up the manifest. -/
def call (t : Traffic) (key : String) : Reading := ⟨t, key, .lookup key t.base.store⟩

def step (r : Reading) : ReadAction → Reading
  | .other action => { r with base := r.base.step X action }
  | .advance =>
    { r with reader := r.reader.advance X r.base.base.engine r.key r.base.base.store }

def run (r : Reading) : List ReadAction → Reading
  | [] => r
  | action :: actions => (r.step X action).run actions

end Reading

/-! ## What the clients know -/

structure Contents where
  /-- The bytes that every upload has accepted. -/
  uploads : ExtTreeMap Nat Bytes
  /-- The bytes of the object under every key. -/
  objects : ExtTreeMap String Bytes

namespace Contents

def empty : Contents := ⟨∅, ∅⟩

/-- An upload becomes visible with its manifest; a rename makes the object visible under the new
key before it removes it from the old one. -/
def advance (c : Contents) (a : Nat) : Agent → Contents
  | .putting _ manifest _ =>
    { c with objects := (c.uploads[a]?).elim c.objects (c.objects.insert manifest.key) }
  | .moving fromKey toKey _ =>
    { c with objects := (c.objects[fromKey]?).elim c.objects (c.objects.insert toKey) }
  | .removing key _ => { c with objects := c.objects.erase key }
  | .removingOld fromKey _ _ => { c with objects := c.objects.erase fromKey }
  | _ => c

/-- `m` takes the action. -/
def call (m : Machine) (c : Contents) : Action → Contents
  | .begin a _ _ _ =>
    if m.agents.contains a then c else { c with uploads := c.uploads.insert a [] }
  | .write a data =>
    match m.agents[a]? with
    | some (.idle session) =>
      -- a write over the limit is refused
      if session.maxObjectSize ≠ 0 ∧ session.maxObjectSize < session.bytesWritten + data.length
      then c
      else { c with uploads := c.uploads.insert a ((c.uploads[a]?).getD [] ++ data) }
    | _ => c
  | .advance a => (m.agents[a]?).elim c (c.advance a)
  | _ => c

def step (t : Traffic) (c : Contents) : TrafficAction → Contents
  | .call action => c.call t.base action
  | _ => c

def run (c : Contents) (t : Traffic) : List TrafficAction → Contents
  | [] => c
  | action :: actions => (c.step t action).run (t.step X action) actions

/-- All that the upload which an action adds to has received with it. -/
def received (c : Contents) : Action → Bytes
  | .write a data => (c.uploads[a]?).getD [] ++ data
  | _ => []

def receivedWith (c : Contents) : TrafficAction → Bytes
  | .call action => c.received action
  | _ => []

/-- What the uploads have received, action by action. -/
def receivedIn (c : Contents) (t : Traffic) : List TrafficAction → List Bytes
  | [] => []
  | action :: actions =>
    c.receivedWith action :: (c.step t action).receivedIn (t.step X action) actions

end Contents

/-- What runs beside the reader. -/
def ReadAction.traffic? : ReadAction → Option TrafficAction
  | .other action => some action
  | .advance => none

end KaidaDB
