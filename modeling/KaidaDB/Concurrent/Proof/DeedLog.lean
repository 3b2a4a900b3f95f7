import KaidaDB.Concurrent.PowerLoss
import KaidaDB.Concurrent.Proof.Steps

/-!
# What a deed does to the log

The store after an action is what the one operation of its deed leaves (`advance_store`), and that appends
the entry of the deed to the log or, where it compacts, replaces the log by the live entries
(`step_log`).
-/

namespace KaidaDB

open Std Effects

variable {X : Crates}

/-- The operation on the store. -/
def Deed.program (X : Crates) : Deed → M Unit
  | nothing | found _ => pure ()
  | created id data => BlobStore.createChunk X id data
  | referenced id path => Index.addChunkRef X id path
  | dropped id => discard (Index.decrementChunkRef X id)
  | unlinked id => BlobStore.deleteChunk id
  | put manifest => Index.putManifest X manifest
  | removed key => Index.deleteManifest X key

namespace Machine

variable (m : Machine) (a : Nat)

/-! ## Agents leave the store alone -/

@[simp] theorem become_store (agent : Agent) : (m.become a agent).store = m.store := rfl

@[simp] theorem leave_store (agent : Agent) : (m.leave a agent).store = m.store := rfl

@[simp] theorem lock_store (key : String) (agent : Agent) : (m.lock a key agent).store = m.store := by
  unfold Machine.lock
  split_ifs <;> rfl

@[simp] theorem resume_store (session : StoreSession) (next : Next) :
    (m.resume a session next).store = m.store := by cases next <;> rfl

@[simp] theorem flushFailed_store (session : StoreSession) (next : Next) :
    (m.flushFailed a session next).store = m.store := by cases next <;> rfl

@[simp] theorem flush_store (session : StoreSession) (next : Next) :
    (m.flush a session next).store = m.store := by
  unfold Machine.flush
  split_ifs <;> simp

@[simp] theorem decrementFailed_store (why : Release) (chunk : ChunkId) (chunks : List ChunkId) :
    (m.decrementFailed a why chunk chunks).store = m.store := by cases why <;> rfl

@[simp] theorem unlinkFailed_store (why : Release) (chunk : ChunkId) (chunks : List ChunkId) :
    (m.unlinkFailed a why chunk chunks).store = m.store := by cases why <;> rfl

theorem exec_store {α : Type} {x : M α} {ok : Machine → α → Machine} {failed : Machine → Machine}
    (hok : ∀ m v, (ok m v).store = m.store) (hfailed : ∀ m, (failed m).store = m.store) :
    (m.exec x ok failed).store = storeAfter (x m.store) := by
  cases hx : x m.store with
  | ok v s =>
    simp only [Machine.exec, storeAfter, hx]
    exact hok _ v
  | error e s =>
    simp only [Machine.exec, storeAfter, hx]
    exact hfailed _

theorem advance_store (agent : Agent) :
    (m.advance X a agent).store = storeAfter ((agent.deed X m.store).program X m.store) := by
  cases agent with
  | idle session => rfl
  | writing session rest =>
    simp only [advance]
    split_ifs <;> simp <;> rfl
  | checking session chunk next =>
    rw [advance, exec_store _ (by simp) (by simp), Agent.deed]
    split_ifs <;> rfl
  | creating session chunk next => exact exec_store _ (by simp) (by simp)
  | referencing session chunk next => exact exec_store _ (by simp) (by simp)
  | committing session => exact exec_store _ (by simp) (by simp)
  | locking session manifest => simp [advance]; rfl
  | looking session manifest => exact exec_store _ (by simp) (by simp)
  | putting session manifest previous => exact exec_store _ (by simp) (by simp)
  | releasing why chunks =>
    cases chunks with
    | nil => cases why <;> rfl
    | cons chunk chunks =>
      rw [advance, exec_store _ (fun m last => by split <;> simp) (by simp)]
      show _ = storeAfter (discard (Index.decrementChunkRef X chunk) m.store)
      rw [run_discard]
      cases Index.decrementChunkRef X chunk m.store <;> rfl
  | unlinking why chunk chunks => exact exec_store _ (by simp) (by simp)
  | deleting key => simp [advance]; rfl
  | deleteLooking key =>
    refine exec_store _ (fun m found => ?_) (by simp)
    cases found <;> simp
  | removing key manifest => exact exec_store _ (by simp) (by simp)
  | renameLocking fromKey toKey => simp [advance]; rfl
  | renamingLocked fromKey toKey => simp [advance]; rfl
  | renameLooking fromKey toKey =>
    refine exec_store _ (fun m found => ?_) (by simp)
    cases found <;> simp
  | renameChecking fromKey toKey manifest =>
    refine exec_store _ (fun m found => ?_) (by simp)
    obtain ⟨found, now⟩ := found
    cases found <;> simp
  | moving fromKey toKey manifest => exact exec_store _ (by simp) (by simp)
  | removingOld fromKey toKey manifest => exact exec_store _ (by simp) (by simp)

end Machine

/-! ## The log after an operation -/

/-- The log after the entry of a deed is appended. -/
def logAfter (X : Crates) (s : Store) (entry : LogEntry) : Bytes :=
  let index := applyEntry s.index entry
  if entry.ofManifest ∧ CompactsAt index (s.logEntries + 1) then logBytes X (Index.liveEntries index)
  else s.log ++ entryLine X entry

theorem logAfter_location {s : Store} {e : LogEntry} (he : e.ofManifest = false) :
    logAfter X s e = s.log ++ entryLine X e := if_neg (by simp [he])

section
variable {s : Store} (hs : s.attached = true) (hio : s.io = Stream'.const .ok)
include hio

theorem maybeCompact_calm : Index.maybeCompact X s = .ok ()
    (if CompactsAt s.index s.logEntries then { s with
        log := logBytes X (Index.liveEntries s.index), attached := true,
        logEntries := (Index.liveEntries s.index).length }
      else s) := by
  have hplan : s.io.head.compact = none := by rw [hio]; rfl
  rw [maybeCompact_run, hplan]
  by_cases hat : CompactsAt s.index s.logEntries
  · rw [if_pos hat, if_neg (not_or.2 ⟨Nat.not_lt.2 hat.1, Nat.not_lt.2 hat.2⟩)]
  · have hfew : s.logEntries < compactionFloor ∨ s.logEntries < compactionRatio * s.index.live := by
      by_contra hmany
      exact hat ((not_or.1 hmany).imp Nat.not_lt.1 Nat.not_lt.1)
    rw [if_neg hat, if_pos hfew]

include hs

theorem appendEntry_calm (entry : LogEntry) (sync : Bool) :
    Index.appendEntry X entry sync s = .ok () { s with
      io := s.io.tail, log := s.log ++ entryLine X entry, logEntries := s.logEntries + 1 } :=
  appendEntry_ok hs (.inl (by rw [show s.view.io = s.io from rfl, hio]; rfl))

/-- The store after an entry was appended and applied. -/
def Store.entered (X : Crates) (s : Store) (entry : LogEntry) : Store := { s with
  io := s.io.tail, log := s.log ++ entryLine X entry, logEntries := s.logEntries + 1,
  index := applyEntry s.index entry }

/-- An entry of a manifest. -/
theorem manifest_entry (entry : LogEntry) (hentry : entry.ofManifest = true) :
    let s' := storeAfter ((Index.appendEntry X entry true >>= fun _ =>
      (modify fun s => { s with index := applyEntry s.index entry } : M Unit) >>= fun _ =>
        Index.maybeCompact X) s)
    s'.log = logAfter X s entry ∧ s'.durability = s.durability := by
  have hrun := maybeCompact_calm (X := X) (s := s.entered X entry) (by
    show s.io.tail = _
    rw [hio]
    rfl)
  rw [run_bind, appendEntry_calm hs hio]
  show (storeAfter (Index.maybeCompact X (s.entered X entry))).log = _ ∧
    (storeAfter (Index.maybeCompact X (s.entered X entry))).durability = _
  rw [hrun, logAfter, hentry]
  simp only [storeAfter, true_and]
  show (if CompactsAt (applyEntry s.index entry) (s.logEntries + 1) then _ else _ : Store).log = _ ∧
    (if CompactsAt (applyEntry s.index entry) (s.logEntries + 1) then _ else _ : Store).durability = _
  split_ifs
  · exact ⟨rfl, rfl⟩
  · exact ⟨rfl, rfl⟩

/-- An entry of a chunk location. -/
theorem location_entry (entry : LogEntry) (hentry : entry.ofManifest = false) :
    let s' := storeAfter ((Index.appendEntry X entry false >>= fun _ =>
      (modify fun s => { s with index := applyEntry s.index entry } : M Unit)) s)
    s'.log = logAfter X s entry ∧ s'.durability = s.durability := by
  rw [run_bind, appendEntry_calm hs hio, logAfter_location hentry]
  exact ⟨rfl, rfl⟩

/-- **A deed appends its entry**, and perhaps compacts. -/
theorem deed_log (deed : Deed) :
    let s' := storeAfter (deed.program X s)
    s'.log = (deed.appended? s.index).elim s.log (logAfter X s) ∧ s'.durability = s.durability := by
  have hplan : s.io.head = .ok := by rw [hio]; rfl
  cases deed with
  | nothing => exact ⟨rfl, rfl⟩
  | found id => exact ⟨rfl, rfl⟩
  | created id data =>
    simp only [Deed.program, BlobStore.createChunk, nextPlan, run_bind, run_modifyGet, hplan]
    exact ⟨rfl, rfl⟩
  | referenced id path => exact location_entry hs hio _ rfl
  | dropped id =>
    rw [show (Deed.dropped id).appended? s.index = (droppedRef s.index id).map EntryOp.entry from rfl,
      droppedRef]
    show (storeAfter (discard (Index.decrementChunkRef X id) s)).log = _ ∧
      (storeAfter (discard (Index.decrementChunkRef X id) s)).durability = _
    rw [run_discard, Index.decrementChunkRef, run_bind]
    simp only [Index.getChunkLocation, run_bind, run_get]
    cases hloc : s.index.chunkLocations[id.toHex]? with
    | none => exact ⟨rfl, rfl⟩
    | some loc =>
      by_cases hlast : loc.refCount ≤ 1
      · simp only [run_pure, if_pos hlast, Option.map_some, Option.elim_some, Index.deleteChunkLocation,
          run_bind, appendEntry_calm hs hio]
        exact ⟨(logAfter_location (e := .deleteChunkLocation id.toHex) rfl).symm, rfl⟩
      · simp only [run_pure, if_neg hlast, Option.map_some, Option.elim_some, Index.putChunkLocation,
          run_bind, appendEntry_calm hs hio]
        exact ⟨(logAfter_location (e := .putChunkLocation id.toHex _) rfl).symm, rfl⟩
  | unlinked id =>
    simp only [Deed.program, BlobStore.deleteChunk, run_bind, run_get]
    split_ifs
    · simp only [nextPlan, run_bind, run_modifyGet, hplan]
      exact ⟨rfl, rfl⟩
    · exact ⟨rfl, rfl⟩
  | put manifest => exact manifest_entry hs hio _ rfl
  | removed key => exact manifest_entry hs hio _ rfl

end

/-- The log after an action, and the durability. -/
theorem Machine.step_log {m : Machine} (hs : m.store.attached = true) (hcalm : m.store.view.Calm)
    (action : Action) :
    (m.step X action).store.log
      = ((m.deed X action).appended? m.store.index).elim m.store.log (logAfter X m.store) ∧
    (m.step X action).store.durability = m.store.durability := by
  have hquiet : ∀ m' : Machine, m'.store = m.store →
      m'.store.log = m.store.log ∧ m'.store.durability = m.store.durability :=
    fun m' h => h ▸ ⟨rfl, rfl⟩
  have henter : ∀ {a : Nat} {m' : Machine}, m'.store = m.store → (m.enter a m').store = m.store := by
    intro a m' h
    unfold Machine.enter
    split_ifs
    · rfl
    · exact h
  have hidle : ∀ {a : Nat} {call : StoreSession → Machine},
      (∀ session, (call session).store = m.store) → (m.onIdle a call).store = m.store := by
    intro a call h
    unfold Machine.onIdle
    split
    · exact h _
    · rfl
  cases action with
  | begin a key contentType metadata =>
    refine hquiet _ (henter ?_)
    unfold Machine.exec StorageEngine.beginStore
    cases validateKey key with
    | error e => rfl
    | ok u =>
      by_cases hbig : isizeMax < m.engine.chunkSize
      · rw [if_pos hbig]
        rfl
      · rw [if_neg hbig]
        rfl
  | write a data => exact hquiet _ (hidle fun session => by split_ifs <;> rfl)
  | finish a => exact hquiet _ (hidle fun session => m.flush_store a session .commit)
  | abort a => exact hquiet _ (hidle fun session => rfl)
  | delete a key => exact hquiet _ (henter rfl)
  | rename a fromKey toKey =>
    refine hquiet _ (henter ?_)
    unfold Machine.exec
    cases validateKey toKey with
    | error e => rfl
    | ok u =>
      show (if fromKey = toKey then m else m.become a _).store = m.store
      split_ifs <;> rfl
  | advance a =>
    simp only [Machine.step, Machine.deed]
    cases m.agents[a]? with
    | none => exact ⟨rfl, rfl⟩
    | some agent =>
      rw [Machine.advance_store, Option.elim_some]
      exact deed_log hs hcalm _
  | tick now => exact ⟨rfl, rfl⟩

end KaidaDB
