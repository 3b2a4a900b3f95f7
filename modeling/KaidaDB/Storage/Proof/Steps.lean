import KaidaDB.Lib.Effects
import KaidaDB.Storage.BlobStore
import KaidaDB.Storage.IndexRun
import KaidaDB.Storage.Proof.LogFacts

/-!
# What the operations on index and chunk files do

`View` is the part of a store that the engine works with: the index in memory, the chunk files, the
clock and the coming `IoPlan`s. Every operation is described once by a `Does` lemma over it, one
for the plan that lets it succeed and one for the plan that makes it fail. The lens comes in two
kinds: with `logged`, the log is moreover known to consist of complete lines that rebuild the index
(`Store.Logged`), which needs that no append wrote half a line.
-/

namespace KaidaDB

open Std Effects

/-- The part of a store the engine works with. -/
structure View where
  dataDir : String
  durability : Durability
  index : IndexState
  files : ExtTreeMap String ChunkFile
  clock : Int
  io : Stream' IoPlan

def Store.view (s : Store) : View := ⟨s.dataDir, s.durability, s.index, s.files, s.clock, s.io⟩

/-- The log consists of complete lines and rebuilds the index. -/
def Store.Logged (X : Crates) (s : Store) : Prop :=
  ∃ es, s.log = logBytes X es ∧ replayLog es = s.index

/-- The next append succeeds: no fault is planned, or one of a `sync_data` that is not called. -/
def View.Appends (c : View) (sync : Bool) : Prop :=
  c.io.head.append = none ∨
    c.io.head.append = some .sync ∧ ¬ (sync = true ∧ c.durability = .sync)

/-- The next append fails; with `logged`, before it writes anything. -/
def View.FailsAppend (logged : Bool) (c : View) (sync : Bool) : Prop :=
  (∃ n, c.io.head.append = some (.write n) ∧ (logged = true → n = 0)) ∨
    logged = false ∧ c.io.head.append = some .sync ∧ sync = true ∧ c.durability = .sync

/-- A store with its log file open, and in step with the log if `logged`. -/
def lens (X : Crates) (logged : Bool) : Lens Store View where
  healthy s := s.attached = true ∧ (logged = true → s.Logged X)
  view := Store.view

variable {X : Crates} {logged : Bool} {α : Type} {c c' : View}

/-- Opening a log of complete lines finds the index as it was. -/
theorem Store.Logged.openWith (hX : X.Lawful) {s : Store} (h : s.Logged X)
    (durability : Durability) : ∃ entries, Index.openWith X s durability = .ok { s with
      durability := durability, logEntries := entries, attached := true } := by
  obtain ⟨es, hlog, hes⟩ := h
  have hopen : Index.openWith X s durability = .ok { s with
      durability := durability, index := replayLog es, logEntries := es.length,
      log := s.log, attached := true } :=
    openWith_eq (by rw [hlog]; exact openLog_logBytes hX es)
  rw [hes] at hopen
  exact ⟨es.length, hopen⟩

/-! ## The log -/

section
variable {s : Store} (hs : s.attached = true)
include hs

theorem appendEntry_ok {e : LogEntry} {sync : Bool} (hp : s.view.Appends sync) :
    Index.appendEntry X e sync s = .ok () { s with
      io := s.io.tail, log := s.log ++ entryLine X e, logEntries := s.logEntries + 1 } := by
  rw [appendEntry_run, Store.written_attached hs]
  rcases hp with hp | ⟨hp, hd⟩
  · rw [show s.io.head.append = none from hp]
  · rw [show s.io.head.append = some .sync from hp]
    exact if_neg hd

theorem appendEntry_write {e : LogEntry} {sync : Bool} {n : Nat}
    (hp : s.io.head.append = some (.write n)) :
    Index.appendEntry X e sync s = .error ioError { s with
      io := s.io.tail, log := s.log ++ (entryLine X e).take n } := by
  rw [appendEntry_run, hp]
  exact congrArg (EStateM.Result.error ioError) (Store.written_attached hs _)

theorem appendEntry_sync {e : LogEntry} (hp : s.io.head.append = some .sync)
    (hd : s.durability = .sync) :
    Index.appendEntry X e true s = .error ioError { s with
      io := s.io.tail, log := s.log ++ entryLine X e } := by
  rw [appendEntry_run, hp, Store.written_attached hs]
  exact if_pos ⟨rfl, hd⟩

end

/-- An append that succeeds and the change in memory after it. -/
theorem does_logged (e : LogEntry) (sync : Bool) {k : Unit → M α} {r : Except Fail α}
    (hp : c.Appends sync)
    (hk : Does (lens X logged) (k ()) { c with index := applyEntry c.index e, io := c.io.tail }
      r c') :
    Does (lens X logged) (Index.appendEntry X e sync >>= fun _ =>
      (modify fun s => { s with index := applyEntry s.index e } : M Unit) >>= k) c r c' := by
  rintro s ⟨hs, hl⟩ rfl
  refine Exists.elim (hk { s with
    io := s.io.tail, log := s.log ++ entryLine X e, logEntries := s.logEntries + 1,
    index := applyEntry s.index e } ⟨hs, fun ht => ?_⟩ rfl) fun s' h => ⟨s', ?_, h.2⟩
  · obtain ⟨es, hlog, hes⟩ := hl ht
    refine ⟨es ++ [e], ?_, ?_⟩
    · rw [logBytes_append, logBytes_singleton, ← hlog]
    · rw [replayLog_snoc, hes]
  · rw [run_bind, appendEntry_ok hs hp]
    exact h.1

/-- An append that fails. -/
theorem does_append_error {e : LogEntry} {sync : Bool} {k : Unit → M α}
    (hf : c.FailsAppend logged sync) :
    Does (lens X logged) (Index.appendEntry X e sync >>= k) c (.error ioError)
      { c with io := c.io.tail } := by
  refine Does.bind_error ?_
  rintro s ⟨hs, hl⟩ rfl
  obtain ⟨n, hp, hn⟩ | ⟨rfl, hp, rfl, hd⟩ := hf
  · refine ⟨_, appendEntry_write hs hp, ⟨hs, fun ht => ?_⟩, rfl⟩
    obtain ⟨es, hlog, hes⟩ := hl ht
    exact ⟨es, by simp [hn ht, hlog], hes⟩
  · refine ⟨_, appendEntry_sync hs hp hd, ⟨hs, fun ht => ?_⟩, rfl⟩
    cases ht

theorem does_compact (hp : c.io.head.compact = none) :
    Does (lens X logged) (Index.compact X) c (.ok ()) c := by
  rintro s ⟨hs, hl⟩ rfl
  have hp : s.io.head.compact = none := hp
  refine ⟨{ s with
    log := logBytes X (Index.liveEntries s.index), attached := true,
    logEntries := (Index.liveEntries s.index).length }, ?_, ⟨rfl, fun ht => ?_⟩, rfl⟩
  · simp only [Index.compact, run_bind, run_get, hp]
    rfl
  · obtain ⟨es, -, hes⟩ := hl ht
    exact ⟨_, rfl, replayLog_liveEntries (hes ▸ replayLog_keyed es)⟩

theorem does_compact_error (hp : c.io.head.compact = some .beforeRename) :
    Does (lens X logged) (Index.compact X) c (.error ioError) c := by
  rintro s ⟨hs, hl⟩ rfl
  have hp : s.io.head.compact = some .beforeRename := hp
  refine ⟨s, ?_, ⟨hs, hl⟩, rfl⟩
  simp only [Index.compact, run_bind, run_get, hp]
  rfl

/-- A success whose value is dropped. -/
theorem does_ignoreError_ok {x : M α} {a : α} (h : Does (lens X logged) x c (.ok a) c') :
    Does (lens X logged) (ignoreError x) c (.ok ()) c' :=
  Does.tryCatch_ok (h.map fun _ => ())

/-- An error that is dropped. -/
theorem does_ignoreError_error {x : M α} {e : KaidaDbError}
    (h : Does (lens X logged) x c (.error (.error e)) c') :
    Does (lens X logged) (ignoreError x) c (.ok ()) c' :=
  Does.tryCatch_error (h.map_error fun _ => ()) (Does.pure ())

/-- Automatic compaction, whether it runs, fails or does not run, is not seen. -/
theorem does_maybeCompact (hp : c.io.head.compact ≠ some .afterRename) :
    Does (lens X logged) (Index.maybeCompact X) c (.ok ()) c := by
  refine Does.get_bind fun s _ _ => ?_
  have hcompact : Does (lens X logged) (ignoreError (Index.compact X)) c (.ok ()) c := by
    rcases h : c.io.head.compact with _ | _ | _
    · exact does_ignoreError_ok (does_compact h)
    · exact does_ignoreError_error (does_compact_error h)
    · exact absurd h hp
  split_ifs
  · exact Does.pure ()
  · exact Does.pure ()
  · exact hcompact

/-! ## Index entries -/

/-- An entry made durable and applied. -/
def View.applied (c : View) (e : LogEntry) : View :=
  { c with index := applyEntry c.index e, io := c.io.tail }

theorem does_putManifest {m : MediaManifest} (ha : c.Appends true)
    (hc : c.io.tail.head.compact ≠ some .afterRename) :
    Does (lens X logged) (Index.putManifest X m) c (.ok ()) (c.applied (.putManifest m)) :=
  does_logged _ _ ha (does_maybeCompact hc)

theorem does_deleteManifest {key : String} (ha : c.Appends true)
    (hc : c.io.tail.head.compact ≠ some .afterRename) :
    Does (lens X logged) (Index.deleteManifest X key) c (.ok ())
      (c.applied (.deleteManifest key)) :=
  does_logged _ _ ha (does_maybeCompact hc)

theorem does_putChunkLocation {id : ChunkId} {loc : ChunkLocation}
    (ha : c.Appends false) :
    Does (lens X logged) (Index.putChunkLocation X id loc) c (.ok ())
      (c.applied (.putChunkLocation id.toHex loc)) := by
  have h : Does (lens X logged) _ c _ _ :=
    does_logged (.putChunkLocation id.toHex loc) false ha (Does.pure ())
  rwa [bind_pure] at h

theorem does_deleteChunkLocation {id : ChunkId} (ha : c.Appends false) :
    Does (lens X logged) (Index.deleteChunkLocation X id) c (.ok ())
      (c.applied (.deleteChunkLocation id.toHex)) := by
  have h : Does (lens X logged) _ c _ _ :=
    does_logged (.deleteChunkLocation id.toHex) false ha (Does.pure ())
  rwa [bind_pure] at h

theorem does_putManifest_error {m : MediaManifest} (h : c.FailsAppend logged true) :
    Does (lens X logged) (Index.putManifest X m) c (.error ioError) { c with io := c.io.tail } :=
  does_append_error h

theorem does_deleteManifest_error {key : String} (h : c.FailsAppend logged true) :
    Does (lens X logged) (Index.deleteManifest X key) c (.error ioError)
      { c with io := c.io.tail } :=
  does_append_error h

/-! ## Reference counts -/

theorem does_getManifest {key : String} :
    Does (lens X logged) (Index.getManifest key) c (.ok c.index.manifests[key]?) c :=
  Does.get_bind fun _ _ hv => hv ▸ Does.pure _

theorem does_getChunkLocation {id : ChunkId} :
    Does (lens X logged) (Index.getChunkLocation id) c (.ok c.index.chunkLocations[id.toHex]?) c :=
  Does.get_bind fun _ _ hv => hv ▸ Does.pure _

theorem does_addChunkRef {id : ChunkId} {path : String} (ha : c.Appends false) :
    Does (lens X logged) (Index.addChunkRef X id path) c (.ok ())
      (c.applied (.putChunkLocation id.toHex (addedRef c.index id path))) :=
  Does.bind does_getChunkLocation (does_putChunkLocation ha)

theorem does_addChunkRef_error {id : ChunkId} {path : String} (hf : c.FailsAppend logged false) :
    Does (lens X logged) (Index.addChunkRef X id path) c (.error ioError)
      { c with io := c.io.tail } :=
  Does.bind does_getChunkLocation (does_append_error hf)

theorem does_decrementChunkRef_none {id : ChunkId} (h : droppedRef c.index id = none) :
    Does (lens X logged) (Index.decrementChunkRef X id) c (.ok false) c := by
  refine Does.bind does_getChunkLocation ?_
  rw [Option.map_eq_none_iff.1 h]
  exact Does.pure _

theorem does_decrementChunkRef {id : ChunkId} {op : EntryOp}
    (h : droppedRef c.index id = some op) (ha : c.Appends false) :
    Does (lens X logged) (Index.decrementChunkRef X id) c (.ok (lastRef c.index id))
      (c.applied op.entry) := by
  obtain ⟨loc, hloc, rfl⟩ := Option.map_eq_some_iff.1 h
  refine Does.bind does_getChunkLocation ?_
  rw [lastRef, hloc]
  dsimp only
  split_ifs with hle
  · refine Does.bind (does_deleteChunkLocation ha) ?_
    simpa [hle, EntryOp.entry] using Does.pure true
  · refine Does.bind (does_putChunkLocation ha) ?_
    simpa [hle, EntryOp.entry] using Does.pure false

theorem does_decrementChunkRef_error {id : ChunkId} {op : EntryOp}
    (h : droppedRef c.index id = some op) (hf : c.FailsAppend logged false) :
    Does (lens X logged) (Index.decrementChunkRef X id) c (.error ioError)
      { c with io := c.io.tail } := by
  obtain ⟨loc, hloc, -⟩ := Option.map_eq_some_iff.1 h
  refine Does.bind does_getChunkLocation ?_
  rw [hloc]
  dsimp only
  split_ifs with hle
  · exact Does.bind_error (does_append_error hf)
  · exact Does.bind_error (does_append_error hf)

/-! ## Chunk files -/

/-- A chunk written unless it is there. -/
def View.written (X : Crates) (c : View) (id : ChunkId) (data : Bytes) : View :=
  if c.files.contains id.toHex then c
  else { c with
    files := c.files.insert id.toHex ⟨encodeChunk X data, c.clock⟩, io := c.io.tail }

/-- A chunk file removed if it is there. -/
def View.unlinked (c : View) (id : ChunkId) : View :=
  if c.files.contains id.toHex then
    { c with files := c.files.erase id.toHex, io := c.io.tail }
  else c

/-- Operations that change only the view. -/
theorem does_nextPlan : Does (lens X logged) nextPlan c (.ok c.io.head) { c with io := c.io.tail } :=
  fun s hs hv => hv ▸ ⟨{ s with io := s.io.tail }, rfl, hs, rfl⟩

theorem does_modifyFiles {f : Store → ExtTreeMap String ChunkFile} {t : ExtTreeMap String ChunkFile}
    (hf : ∀ s : Store, s.view = c → f s = t) :
    Does (lens X logged) (modify fun s => { s with files := f s } : M Unit) c (.ok ())
      { c with files := t } :=
  fun s hs hv => ⟨{ s with files := f s }, rfl, hs, by rw [hf s hv, ← hv]; rfl⟩

theorem does_chunkExists {id : ChunkId} :
    Does (lens X logged) (BlobStore.chunkExists id) c (.ok (c.files.contains id.toHex)) c :=
  Does.get_bind fun _ _ hv => hv ▸ Does.pure _

theorem does_createChunk {id : ChunkId} {data : Bytes} (hw : c.io.head.writeFails = false) :
    Does (lens X logged) (BlobStore.createChunk X id data) c (.ok ()) { c with
      files := c.files.insert id.toHex ⟨encodeChunk X data, c.clock⟩, io := c.io.tail } := by
  refine Does.bind does_nextPlan ?_
  rw [hw]
  refine does_modifyFiles fun u hu => ?_
  rw [show u.files = c.files from congrArg View.files hu,
    show u.clock = c.clock from congrArg View.clock hu]

theorem does_createChunk_error {id : ChunkId} {data : Bytes} (hw : c.io.head.writeFails = true) :
    Does (lens X logged) (BlobStore.createChunk X id data) c (.error ioError)
      { c with io := c.io.tail } := by
  refine Does.bind does_nextPlan ?_
  rw [hw]
  exact Does.bind_error (Does.throw _)

theorem does_writeChunk {id : ChunkId} {data : Bytes} (hw : c.io.head.writeFails = false) :
    Does (lens X logged) (BlobStore.writeChunk X id data) c
      (.ok (BlobStore.chunkPath c.dataDir id)) (c.written X id data) := by
  refine Does.get_bind fun s _ hv => ?_
  rw [show s.dataDir = c.dataDir from congrArg View.dataDir hv]
  refine Does.bind does_chunkExists ?_
  unfold View.written
  split_ifs
  · exact Does.pure _
  · exact Does.bind (does_createChunk hw) (Does.pure _)

/-- A chunk that is there is not written again. -/
theorem does_writeChunk_found {id : ChunkId} {data : Bytes}
    (h : c.files.contains id.toHex = true) :
    Does (lens X logged) (BlobStore.writeChunk X id data) c
      (.ok (BlobStore.chunkPath c.dataDir id)) c := by
  refine Does.get_bind fun s _ hv => ?_
  rw [show s.dataDir = c.dataDir from congrArg View.dataDir hv]
  refine Does.bind does_chunkExists ?_
  rw [if_pos h]
  exact Does.pure _

theorem does_writeChunk_error {id : ChunkId} {data : Bytes}
    (h : c.files.contains id.toHex ≠ true) (hw : c.io.head.writeFails = true) :
    Does (lens X logged) (BlobStore.writeChunk X id data) c (.error ioError)
      { c with io := c.io.tail } := by
  refine Does.get_bind fun s _ hv => ?_
  refine Does.bind does_chunkExists ?_
  rw [if_neg h]
  exact Does.bind_error (does_createChunk_error hw)

theorem does_deleteChunk_none {id : ChunkId} (h : c.files.contains id.toHex ≠ true) :
    Does (lens X logged) (BlobStore.deleteChunk id) c (.ok ()) c := by
  refine Does.get_bind fun s _ hv => ?_
  rw [show s.files = c.files from congrArg View.files hv, if_neg h]
  exact Does.pure _

theorem does_deleteChunk {id : ChunkId} (hr : c.io.head.removeFails = false) :
    Does (lens X logged) (BlobStore.deleteChunk id) c (.ok ()) (c.unlinked id) := by
  refine Does.get_bind fun s _ hv => ?_
  rw [show s.files = c.files from congrArg View.files hv]
  unfold View.unlinked
  by_cases h : c.files.contains id.toHex = true
  · rw [if_pos h, if_pos h]
    refine Does.bind does_nextPlan ?_
    rw [hr]
    refine does_modifyFiles fun u hu => ?_
    rw [show u.files = c.files from congrArg View.files hu]
  · rw [if_neg h, if_neg h]
    exact Does.pure _

theorem does_deleteChunk_error {id : ChunkId} (h : c.files.contains id.toHex = true)
    (hr : c.io.head.removeFails = true) :
    Does (lens X logged) (BlobStore.deleteChunk id) c (.error ioError)
      { c with io := c.io.tail } := by
  refine Does.get_bind fun s _ hv => ?_
  rw [show s.files = c.files from congrArg View.files hv, if_pos h]
  refine Does.bind does_nextPlan ?_
  rw [hr]
  exact Does.bind_error (Does.throw _)

end KaidaDB
