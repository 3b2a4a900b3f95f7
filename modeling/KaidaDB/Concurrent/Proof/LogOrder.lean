import Mathlib.Data.List.Nodup
import KaidaDB.Concurrent.LogOrder
import KaidaDB.Concurrent.Proof.RefCounts
import KaidaDB.Crates.Reference

/-!
# Log order is memory order

Agents that may change the same slot of the index exclude each other: the key of a manifest is locked
by the agent that is about to write it (`Machine.Moved` has what becomes of the locks), and chunk
locations change only under the `chunk_ref_lock`. So the entries that are in the log and not in memory
are for different slots (`InOrder`), and none are left when all calls have returned (`log_in_order`).
-/

namespace KaidaDB

open Std

variable {X : Crates}

/-! ## Programs that leave log and index alone -/

structure Store.SameLog (s s' : Store) : Prop where
  log : s'.log = s.log
  index : s'.index = s.index
  attached : s'.attached = s.attached
  io : s.io = Stream'.const .ok → s'.io = Stream'.const .ok

theorem Store.SameLog.refl (s : Store) : s.SameLog s := ⟨rfl, rfl, rfl, id⟩

theorem Store.SameLog.trans {s t u : Store} (h : s.SameLog t) (h' : t.SameLog u) : s.SameLog u :=
  ⟨h'.log.trans h.log, h'.index.trans h.index, h'.attached.trans h.attached, fun hs => h'.io (h.io hs)⟩

def KeepsLog {α : Type} (x : M α) : Prop := ∀ s : Store, s.SameLog (storeAfter (x s))

namespace KeepsLog

variable {α β : Type}

theorem pure (a : α) : KeepsLog (Pure.pure a : M α) := fun s => .refl s

theorem throw (e : Fail) : KeepsLog (MonadExcept.throw e : M α) := fun s => .refl s

theorem bind {x : M α} {f : α → M β} (hx : KeepsLog x) (hf : ∀ a, KeepsLog (f a)) :
    KeepsLog (x >>= f) := by
  intro s
  have h := hx s
  rw [Effects.run_bind]
  cases hr : x s with
  | ok a s1 =>
    rw [hr] at h
    exact h.trans (hf a s1)
  | error e s1 =>
    rw [hr] at h
    exact h

theorem get : KeepsLog (MonadState.get : M Store) := fun s => .refl s

theorem nextPlan : KeepsLog nextPlan := fun s =>
  ⟨rfl, rfl, rfl, fun h => by
    show s.io.tail = _
    rw [h]
    rfl⟩

theorem modifyFiles (f : Store → ExtTreeMap String ChunkFile) :
    KeepsLog (modify fun s => { s with files := f s } : M Unit) := fun _ => ⟨rfl, rfl, rfl, id⟩

theorem chunkExists (id : ChunkId) : KeepsLog (BlobStore.chunkExists id) :=
  bind get fun _ => pure _

theorem createChunk (id : ChunkId) (data : Bytes) : KeepsLog (BlobStore.createChunk X id data) := by
  refine bind nextPlan fun plan => ?_
  split_ifs
  · exact throw _
  · exact modifyFiles _

theorem deleteChunk (id : ChunkId) : KeepsLog (BlobStore.deleteChunk id) := by
  refine bind get fun s => ?_
  split_ifs
  · refine bind nextPlan fun plan => ?_
    split_ifs
    · exact throw _
    · exact modifyFiles _
  · exact pure _

theorem getManifest (key : String) : KeepsLog (Index.getManifest key) := bind get fun _ => pure _

theorem nowSecs : KeepsLog nowSecs := bind get fun _ => pure _

end KeepsLog

/-- Operations of the index. -/
def Deed.onIndex : Deed → Bool
  | referenced _ _ | dropped _ | put _ | removed _ => true
  | _ => false

/-- The keys an agent has locked, that of the manifest it is about to put among them. -/
def Agent.relies : Agent → List String
  | moving fromKey toKey manifest =>
    [manifest.key, firstLock fromKey toKey, secondLock fromKey toKey]
  | agent => agent.holds

theorem Agent.holds_relies {agent : Agent} {k : String} (h : k ∈ agent.holds) : k ∈ agent.relies := by
  cases agent with
  | moving fromKey toKey manifest => exact List.mem_cons_of_mem _ h
  | _ => exact h

theorem relies_of_put {agent : Agent} {s : Store} {manifest : MediaManifest}
    (h : agent.deed X s = .put manifest) : manifest.key ∈ agent.relies := by
  cases agent with
  | checking session chunk next =>
    rw [Agent.deed] at h
    split_ifs at h
  | putting session manifest previous =>
    cases h
    exact List.mem_singleton_self _
  | moving fromKey toKey manifest =>
    cases h
    exact List.mem_cons_self
  | releasing why chunks => cases chunks <;> cases h
  | _ => cases h

theorem relies_of_removed {agent : Agent} {s : Store} {key : String}
    (h : agent.deed X s = .removed key) : key ∈ agent.relies := by
  cases agent with
  | checking session chunk next =>
    rw [Agent.deed] at h
    split_ifs at h
  | removing key manifest =>
    cases h
    exact List.mem_singleton_self _
  | removingOld fromKey toKey manifest =>
    cases h
    exact from_mem_locks _ _
  | releasing why chunks => cases chunks <;> cases h
  | _ => cases h

namespace Machine

variable {m m' : Machine} {a : Nat} {old new : Agent} {s : Store}

/-! ## One agent moves -/

/-- Agent `a` goes on: the others keep their locks, it has those it needs, log and index stay. -/
structure Moved (a : Nat) (m m' : Machine) : Prop where
  others : ∀ b : Nat, b ≠ a → m'.agents[b]? = m.agents[b]?
  locks : ∀ (k : String) (b : Nat), b ≠ a → m.locks[k]? = some b → m'.locks[k]? = some b
  held : ∀ agent, m'.agents[a]? = some agent → ∀ k ∈ agent.relies, m'.locks[k]? = some a
  store : m.store.SameLog m'.store

section
variable (hold : ∀ k ∈ old.relies, m.locks[k]? = some a)
include hold

theorem Moved.become (hs : m.store.SameLog s) (hsub : ∀ k ∈ new.relies, k ∈ old.relies) :
    Moved a m (({ m with store := s } : Machine).become a new) where
  others b hb := become_get_ne _ new hb
  locks k b _ hk := hk
  held agent hagent k hk := by
    rw [become_get] at hagent
    cases hagent
    exact hold k (hsub k hk)
  store := hs

theorem Moved.leave (hs : m.store.SameLog s) :
    Moved a m (({ m with store := s } : Machine).leave a old) where
  others b hb := by simp [Machine.leave, Ne.symm hb]
  locks k b hb hk := leave_locks (m := { m with store := s })
    (fun k hmem => hold k (Agent.holds_relies hmem)) hb hk
  held agent hagent := by simp [Machine.leave] at hagent
  store := hs

theorem Moved.lock {key : String} (hsub : ∀ k ∈ new.relies, k ∈ old.relies ∨ k = key)
    (hm : m.agents[a]? = some old) : Moved a m (m.lock a key new) := by
  unfold Machine.lock
  split_ifs with hfree
  · refine ⟨fun _ _ => rfl, fun _ _ _ h => h, fun agent hagent => ?_, .refl _⟩
    rw [hm] at hagent
    cases hagent
    exact hold
  · have hnone : m.locks[key]? = none := by simpa using hfree
    refine ⟨fun b hb => become_get_ne _ new hb, fun k b hb hk => ?_, fun agent hagent k hk => ?_, .refl _⟩
    · rw [FinMap.get_insert, if_neg, hk]
      rintro rfl
      rw [hnone] at hk
      cases hk
    · have hagent : some new = some agent := (become_get _ a new).symm.trans hagent
      cases hagent
      rw [FinMap.get_insert]
      split_ifs with hkey
      · rfl
      · exact hold k ((hsub k hk).resolve_right (Ne.symm hkey))

theorem Moved.go (hsub : ∀ k ∈ new.relies, k ∈ old.relies) : Moved a m (m.become a new) :=
  .become hold (.refl _) hsub

end

theorem Moved.exec {α : Type} {x : M α} {ok : Machine → α → Machine} {failed : Machine → Machine}
    (hx : KeepsLog x)
    (hok : ∀ v s, m.store.SameLog s → Moved a m (ok { m with store := s } v))
    (hfailed : ∀ s, m.store.SameLog s → Moved a m (failed { m with store := s })) :
    Moved a m (m.exec x ok failed) := by
  have h := hx m.store
  unfold Machine.exec
  split
  · rename_i v s hr
    rw [hr] at h
    exact hok v s h
  · rename_i e s hr
    rw [hr] at h
    exact hfailed s h

/-- An open session relies on no lock. -/
theorem idle_relies (session : StoreSession) :
    ∀ k ∈ (Agent.idle session).relies, m.locks[k]? = some a := nofun

theorem Moved.flushFailed {session : StoreSession} (hs : m.store.SameLog s) (next : Next) :
    Moved a m (({ m with store := s } : Machine).flushFailed a session next) := by
  cases next with
  | loop rest => exact .become (idle_relies session) hs nofun
  | commit => exact .leave (idle_relies session) hs

theorem Moved.resume {session : StoreSession} (hs : m.store.SameLog s) (next : Next) :
    Moved a m (({ m with store := s } : Machine).resume a session next) := by
  cases next with
  | loop rest => exact .become (idle_relies session) hs nofun
  | commit => exact .become (idle_relies session) hs nofun

theorem Moved.flush (session : StoreSession) (next : Next) : Moved a m (m.flush a session next) := by
  unfold Machine.flush
  split_ifs
  · exact .resume (.refl _) next
  · exact .go (idle_relies session) nofun

/-- Agents that do not work on the index leave it and its log alone. -/
theorem advance_moved (hm : m.agents[a]? = some old) (hold : ∀ k ∈ old.relies, m.locks[k]? = some a)
    (hdeed : (old.deed X m.store).onIndex = false) : Moved a m (m.advance X a old) := by
  cases old with
  | idle session =>
    exact ⟨fun _ _ => rfl, fun _ _ _ h => h, fun agent h => by
      rw [advance, hm] at h
      cases h
      exact hold, .refl _⟩
  | writing session rest =>
    simp only [advance]
    split_ifs
    · exact .go hold (by simp [Agent.relies, Agent.holds])
    · exact .flush _ _
    · exact .go hold (by simp [Agent.relies, Agent.holds])
  | checking session chunk next =>
    rw [advance]
    refine .exec (KeepsLog.chunkExists _) (fun v s hs => ?_) fun s hs => .flushFailed hs _
    refine .become hold hs ?_
    split_ifs <;> simp [Agent.relies, Agent.holds]
  | creating session chunk next =>
    rw [advance]
    exact .exec (KeepsLog.createChunk _ _) (fun v s hs => .become hold hs (by simp [Agent.relies, Agent.holds]))
      fun s hs => .flushFailed hs _
  | committing session =>
    rw [advance]
    refine .exec KeepsLog.nowSecs (fun v s hs => .become hold hs (by simp [Agent.relies, Agent.holds])) fun s hs => ?_
    exact ⟨fun _ _ => rfl, fun _ _ _ h => h, fun agent h => by
      rw [id, hm] at h
      cases h
      exact hold, hs⟩
  | locking session manifest => exact .lock hold (by simp [Agent.relies, Agent.holds]) hm
  | looking session manifest =>
    rw [advance]
    exact .exec (KeepsLog.getManifest _) (fun v s hs => .become hold hs (fun k hk => hk))
      fun s hs => .leave hold hs
  | releasing why chunks =>
    cases chunks with
    | nil =>
      cases why with
      | deleted key manifest => exact .go hold fun k hk => hk
      | replaced key => exact .leave hold (.refl _)
      | aborted => exact .leave hold (.refl _)
    | cons chunk chunks => cases hdeed
  | unlinking why chunk chunks =>
    have hsub : ∀ k ∈ (Agent.releasing why chunks).relies, k ∈ (Agent.unlinking why chunk chunks).relies :=
      fun k hk => by cases why <;> exact hk
    rw [advance]
    refine .exec (KeepsLog.deleteChunk _) (fun v s hs => .become hold hs hsub) fun s hs => ?_
    cases why with
    | deleted key manifest => exact .leave hold hs
    | replaced key => exact .become hold hs hsub
    | aborted => exact .become hold hs hsub
  | deleting key => exact .lock hold (by simp [Agent.relies, Agent.holds]) hm
  | deleteLooking key =>
    rw [advance]
    refine .exec (KeepsLog.getManifest _) (fun v s hs => ?_) fun s hs => .leave hold hs
    cases v with
    | none => exact .leave hold hs
    | some manifest => exact .become hold hs fun k hk => hk
  | renameLocking fromKey toKey => exact .lock hold (by simp [Agent.relies, Agent.holds]) hm
  | renamingLocked fromKey toKey => exact .lock hold (by simp [Agent.relies, Agent.holds]) hm
  | renameLooking fromKey toKey =>
    rw [advance]
    refine .exec (KeepsLog.getManifest _) (fun v s hs => ?_) fun s hs => .leave hold hs
    cases v with
    | none => exact .leave hold hs
    | some manifest => exact .become hold hs fun k hk => hk
  | renameChecking fromKey toKey manifest =>
    rw [advance]
    refine .exec (KeepsLog.bind (KeepsLog.getManifest _) fun _ =>
      KeepsLog.bind KeepsLog.nowSecs fun _ => KeepsLog.pure _) (fun v s hs => ?_) fun s hs => .leave hold hs
    obtain ⟨found, now⟩ := v
    cases found with
    | none =>
      refine .become hold hs fun k hk => (List.mem_cons.1 hk).elim (fun h => ?_) id
      exact h ▸ to_mem_locks fromKey toKey
    | some _ => exact .leave hold hs
  | referencing session chunk next => cases hdeed
  | putting session manifest previous => cases hdeed
  | removing key manifest => cases hdeed
  | moving fromKey toKey manifest => cases hdeed
  | removingOld fromKey toKey manifest => cases hdeed

theorem returned_moved (hold : ∀ k ∈ old.relies, m.locks[k]? = some a) (last : Bool) :
    Moved a m (m.returned X a last old) := by
  cases old with
  | referencing session chunk next => exact .resume (.refl _) next
  | putting session manifest previous => exact .go hold fun k hk => hk
  | releasing why chunks =>
    cases chunks with
    | nil => exact .leave hold (.refl _)
    | cons chunk chunks =>
      refine .go hold fun k hk => ?_
      cases last <;> cases why <;> exact hk
  | moving fromKey toKey manifest => exact .go hold fun k hk => List.mem_cons_of_mem _ hk
  | _ => exact .leave hold (.refl _)

/-- Locks as the agents need them. -/
def Locked (m : Machine) : Prop :=
  ∀ (a : Nat) agent, m.agents[a]? = some agent → ∀ k ∈ agent.relies, m.locks[k]? = some a

theorem Moved.locked (h : Moved a m m') (hm : m.Locked) : m'.Locked := by
  intro b agent hb k hk
  by_cases hba : b = a
  · subst hba
    exact h.held agent hb k hk
  · rw [h.others b hba] at hb
    exact h.locks k b hba (hm b agent hb k hk)

/-- Between calls: an agent without a call starts one, or time passes. -/
structure Called (m m' : Machine) : Prop where
  busy : ∀ (a : Nat) agent, m.agents[a]? = some agent → (∀ session, agent ≠ .idle session) →
    m'.agents[a]? = some agent
  locked : m'.Locked
  locks : m'.locks = m.locks
  store : m.store.SameLog m'.store

theorem Called.refl (hm : m.Locked) : Called m m := ⟨fun _ _ h _ => h, hm, rfl, .refl _⟩

theorem Called.become (hm : m.Locked) (hidle : ∀ agent, m.agents[a]? = some agent →
    ∃ session, agent = .idle session) (hs : m.store.SameLog s) (hnew : new.relies = []) :
    Called m (({ m with store := s } : Machine).become a new) where
  busy b agent hb hbusy := by
    rw [become_get_ne _ new, hb]
    rintro rfl
    obtain ⟨session, rfl⟩ := hidle agent hb
    exact hbusy session rfl
  locked b agent hb k hk := by
    by_cases hba : b = a
    · subst hba
      rw [become_get] at hb
      cases hb
      rw [hnew] at hk
      cases hk
    · rw [become_get_ne _ new hba] at hb
      exact hm b agent hb k hk
  locks := rfl
  store := hs

theorem Called.flush (hm : m.Locked) {session session' : StoreSession}
    (ha : m.agents[a]? = some (.idle session)) (next : Next) : Called m (m.flush a session' next) := by
  have hidle : ∀ agent, m.agents[a]? = some agent → ∃ session, agent = .idle session := by
    intro agent h
    rw [ha] at h
    exact ⟨session, (Option.some.inj h).symm⟩
  unfold Machine.flush Machine.resume
  split_ifs
  · cases next with
    | loop rest => exact .become hm hidle (.refl _) rfl
    | commit => exact .become hm hidle (.refl _) rfl
  · exact .become hm hidle (.refl _) rfl

theorem step_called (hm : m.Locked) {action : Action} (hnot : ∀ a, action ≠ .advance a) :
    Called m (m.step X action) := by
  have hidle : ∀ {a : Nat} {call : StoreSession → Machine},
      (∀ session, m.agents[a]? = some (.idle session) → Called m (call session)) →
      Called m (m.onIdle a call) := by
    intro a call hcall
    unfold Machine.onIdle
    split
    · rename_i session ha
      exact hcall session ha
    · exact .refl hm
  have henter : ∀ {a : Nat} {call : Machine},
      ((∀ agent, m.agents[a]? = some agent → ∃ session, agent = .idle session) → Called m call) →
      Called m (m.enter a call) := by
    intro a call hcall
    unfold Machine.enter
    split_ifs with hin
    · exact .refl hm
    · refine hcall fun agent ha => ?_
      have := FinMap.contains_iff m.agents a
      rw [ha] at this
      simp_all
  have hgo : ∀ {a : Nat} {new : Agent} {session : StoreSession}, new.relies = [] →
      m.agents[a]? = some (.idle session) → Called m (m.become a new) := by
    intro a new session hnew ha
    refine .become hm (fun agent h => ?_) (.refl _) hnew
    rw [ha] at h
    exact ⟨session, (Option.some.inj h).symm⟩
  cases action with
  | begin a key contentType metadata =>
    refine henter fun hfree => ?_
    unfold Machine.exec StorageEngine.beginStore
    cases validateKey key with
    | error e => exact .refl hm
    | ok u =>
      by_cases hbig : isizeMax < m.engine.chunkSize
      · rw [if_pos hbig]
        exact .refl hm
      · rw [if_neg hbig]
        exact .become hm hfree (.refl _) rfl
  | write a data =>
    refine hidle fun session ha => ?_
    split_ifs
    · exact .refl hm
    · exact hgo rfl ha
  | finish a => exact hidle fun session ha => .flush hm ha _
  | abort a => exact hidle fun session ha => hgo rfl ha
  | delete a key => exact henter fun hfree => .become hm hfree (.refl _) rfl
  | rename a fromKey toKey =>
    refine henter fun hfree => ?_
    unfold Machine.exec
    cases validateKey toKey with
    | error e => exact .refl hm
    | ok u =>
      show Called m (if fromKey = toKey then m else m.become a _)
      split_ifs
      · exact .refl hm
      · exact .become hm hfree (.refl _) rfl
  | advance a => exact absurd rfl (hnot a)
  | tick now => exact ⟨fun _ _ h _ => h, hm, rfl, rfl, rfl, rfl, id⟩

end Machine

/-! ## The order of the log -/

/-- The agent is about to take or to drop a reference. -/
def Agent.takesRef : Agent → Bool
  | referencing _ _ _ | releasing _ (_ :: _) => true
  | _ => false

theorem takesRef_of_deed {agent : Agent} {s : Store}
    (h : (∃ id path, agent.deed X s = .referenced id path) ∨ ∃ id, agent.deed X s = .dropped id) :
    agent.takesRef = true := by
  cases agent with
  | checking session chunk next =>
    rw [Agent.deed] at h
    split_ifs at h <;> simp at h
  | referencing session chunk next => rfl
  | releasing why chunks =>
    cases chunks with
    | nil => simp [Agent.deed] at h
    | cons chunk chunks => rfl
  | _ => simp [Agent.deed] at h

theorem slot_of_takesRef {agent : Agent} (h : agent.takesRef = true) {s : Store} {i : IndexState}
    {e : LogEntry} (he : (agent.deed X s).appended? i = some e) : ∃ hex, e.slot = .chunk hex := by
  cases agent with
  | referencing session chunk next =>
    cases he
    exact ⟨_, rfl⟩
  | releasing why chunks =>
    cases chunks with
    | nil => cases h
    | cons chunk chunks =>
      obtain ⟨op, hop, rfl⟩ := Option.map_eq_some_iff.1 he
      obtain ⟨loc, -, rfl⟩ := Option.map_eq_some_iff.1 hop
      split_ifs
      · exact ⟨_, rfl⟩
      · exact ⟨_, rfl⟩
  | _ => cases h

namespace LogMachine

variable {m m' : LogMachine} {pending pending' : List (Nat × LogEntry)} {a : Nat}

/-- The agent excludes others from a slot. -/
def Owns (m : LogMachine) (a : Nat) : Slot → Prop
  | .manifest key => m.base.locks[key]? = some a
  | .chunk _ => m.refLock = some a

theorem owns_unique {b : Nat} {slot : Slot} (ha : m.Owns a slot) (hb : m.Owns b slot) : a = b := by
  cases slot with
  | manifest key => exact Option.some.inj (ha.symm.trans hb)
  | chunk hex => exact Option.some.inj (ha.symm.trans hb)

/-- What an agent has locked while it is inside an operation. -/
def Excludes (m : LogMachine) (a : Nat) (agent : Agent) : Phase → Prop
  | .locked => m.refLock = some a ∧ agent.takesRef = true
  | .writing e _ => m.refLock = some a ∧ ∃ hex, e.slot = .chunk hex
  | .applying e _ => m.Owns a e.slot

theorem Excludes.congr {agent : Agent} {phase : Phase} (h : m.Excludes a agent phase)
    (hlocks : ∀ k : String, m.base.locks[k]? = some a → m'.base.locks[k]? = some a)
    (hrefs : m.refLock = some a → m'.refLock = some a) : m'.Excludes a agent phase := by
  cases phase with
  | locked => exact ⟨hrefs h.1, h.2⟩
  | writing e last => exact ⟨hrefs h.1, h.2⟩
  | applying e last =>
    rw [Excludes] at h ⊢
    revert h
    cases e.slot with
    | manifest key => exact hlocks key
    | chunk hex => exact hrefs

/-- The log is ahead of memory by the entries of the agents that are about to apply theirs, and each
of these excludes the others from its slot. -/
structure InOrder (X : Crates) (m : LogMachine) (pending : List (Nat × LogEntry)) : Prop where
  attached : m.base.store.attached = true
  io : m.base.store.io = Stream'.const .ok
  locked : m.base.Locked
  lags : m.base.store.Lags X (pending.map Prod.snd)
  nodup : (pending.map Prod.fst).Nodup
  applying : ∀ (a : Nat) e, (a, e) ∈ pending ↔ ∃ last, m.phases[a]? = some (.applying e last)
  excludes : ∀ (a : Nat) phase, m.phases[a]? = some phase → ∃ agent,
    m.base.agents[a]? = some agent ∧ (∀ session, agent ≠ .idle session) ∧ m.Excludes a agent phase

namespace InOrder

theorem start (engine : StorageEngine) (dataDir : String) : InOrder X (.start engine dataDir) [] where
  attached := rfl
  io := rfl
  locked a agent h := by simp [LogMachine.start, Machine.start] at h
  lags := ⟨[], rfl, rfl⟩
  nodup := .nil
  applying a e := by simp [LogMachine.start]
  excludes a phase h := by simp [LogMachine.start] at h

/-- One agent goes on. -/
theorem move (h : InOrder X m pending) (hstore : m'.base.store.attached = true ∧
      m'.base.store.io = Stream'.const .ok ∧ m'.base.store.Lags X (pending'.map Prod.snd))
    (hlocked : m'.base.Locked) (hphases : ∀ b : Nat, b ≠ a → m'.phases[b]? = m.phases[b]?)
    (hagents : ∀ b : Nat, b ≠ a → m'.base.agents[b]? = m.base.agents[b]?)
    (hlocks : ∀ (k : String) (b : Nat), b ≠ a → m.base.locks[k]? = some b →
      m'.base.locks[k]? = some b)
    (hrefs : ∀ b, b ≠ a → m.refLock = some b → m'.refLock = some b)
    (hnodup : (pending'.map Prod.fst).Nodup)
    (hpending : ∀ (b : Nat) e, b ≠ a → ((b, e) ∈ pending' ↔ (b, e) ∈ pending))
    (happlying : ∀ e, (a, e) ∈ pending' ↔ ∃ last, m'.phases[a]? = some (.applying e last))
    (hexcludes : ∀ phase, m'.phases[a]? = some phase → ∃ agent, m'.base.agents[a]? = some agent ∧
      (∀ session, agent ≠ .idle session) ∧ m'.Excludes a agent phase) : InOrder X m' pending' where
  attached := hstore.1
  io := hstore.2.1
  locked := hlocked
  lags := hstore.2.2
  nodup := hnodup
  applying b e := by
    by_cases hba : b = a
    · subst hba
      exact happlying e
    · rw [hpending b e hba, h.applying, hphases b hba]
  excludes b phase hb := by
    by_cases hba : b = a
    · subst hba
      exact hexcludes phase hb
    · rw [hphases b hba] at hb
      obtain ⟨agent, hagent, hbusy, hex⟩ := h.excludes b phase hb
      exact ⟨agent, (hagents b hba).trans hagent, hbusy,
        hex.congr (fun k => hlocks k b hba) (hrefs b hba)⟩

/-- An agent leaves its operation, or goes on outside of one. -/
theorem moved (h : InOrder X m pending) {base : Machine} (hbase : m.base.Moved a base)
    (hphases : ∀ b : Nat, m'.phases[b]? = if b = a then none else m.phases[b]?)
    (hm' : m'.base = base) (hrefs : ∀ b, b ≠ a → m.refLock = some b → m'.refLock = some b)
    (hnot : ∀ e last, m.phases[a]? ≠ some (.applying e last)) : InOrder X m' pending := by
  subst hm'
  have hnone : m'.phases[a]? = none := by rw [hphases, if_pos rfl]
  refine h.move (a := a) ⟨hbase.store.attached.trans h.attached, hbase.store.io h.io,
    h.lags.congr hbase.store.log hbase.store.index⟩ (hbase.locked h.locked)
    (fun b hb => by rw [hphases, if_neg hb]) hbase.others hbase.locks hrefs h.nodup (fun _ _ _ => Iff.rfl)
    (fun e => ?_) fun phase hp => by rw [hnone] at hp; cases hp
  rw [hnone, h.applying]
  refine iff_of_false ?_ (by simp)
  rintro ⟨last, hl⟩
  exact hnot e last hl

/-- An entry is appended. -/
theorem append (h : InOrder X m pending) {agent : Agent} {e : LogEntry} (last : Bool)
    (ha : m.base.agents[a]? = some agent) (hbusy : ∀ session, agent ≠ .idle session)
    (hnot : ∀ e last, m.phases[a]? ≠ some (.applying e last)) (howns : m.Owns a e.slot) :
    InOrder X (m.append X a agent e last) (pending ++ [(a, e)]) := by
  have happ : View.Appends m.base.store.view e.ofManifest :=
    .inl (by show m.base.store.io.head.append = none; rw [h.io]; rfl)
  have hnotin : ∀ f, (a, f) ∉ pending := by
    intro f hf
    obtain ⟨last, hl⟩ := (h.applying a f).1 hf
    exact hnot f last hl
  rw [LogMachine.append, appendEntry_ok h.attached happ]
  refine h.move (a := a) ⟨h.attached, ?_, ?_⟩ h.locked
    (fun b hb => by rw [FinMap.get_insert, if_neg (Ne.symm hb)]) (fun _ _ => rfl)
    (fun _ _ _ hk => hk) (fun _ _ hr => hr) ?_ (fun b f hb => ?_) (fun f => ?_) fun phase hp => ?_
  · show m.base.store.io.tail = _
    rw [h.io]
    rfl
  · rw [List.map_append]
    exact h.lags.append rfl rfl
  · rw [List.map_append, List.nodup_append]
    refine ⟨h.nodup, List.nodup_singleton _, ?_⟩
    intro b hb c hc
    obtain ⟨⟨b, f⟩, hp, rfl⟩ := List.mem_map.1 hb
    obtain rfl : c = a := by simpa using hc
    rintro rfl
    exact hnotin f hp
  · rw [List.mem_append, List.mem_singleton, Prod.mk.injEq]
    simp [hb]
  · rw [List.mem_append, List.mem_singleton, Prod.mk.injEq, FinMap.get_insert, if_pos rfl]
    simp [hnotin, eq_comm]
  · rw [FinMap.get_insert, if_pos rfl] at hp
    cases hp
    exact ⟨agent, ha, hbusy, howns⟩

/-- An entry is applied. -/
theorem apply (h : InOrder X m pending) {agent : Agent} {e : LogEntry} {last : Bool}
    (ha : m.base.agents[a]? = some agent) (hp : m.phases[a]? = some (.applying e last)) :
    ∃ pending', InOrder X (m.apply X a agent e last) pending' := by
  obtain ⟨xs, ys, hsplit⟩ := List.append_of_mem ((h.applying a e).2 ⟨last, hp⟩)
  obtain ⟨_, _, _, howns⟩ := h.excludes a _ hp
  have hnodup := h.nodup
  rw [hsplit, List.map_append, List.map_cons, List.nodup_middle, List.nodup_cons,
    ← List.map_append] at hnodup
  have hout : ∀ f, (a, f) ∉ xs ++ ys := fun f hf => hnodup.1 (List.mem_map.2 ⟨(a, f), hf, rfl⟩)
  -- the entries in front of it are for other slots
  have hslots : ∀ f ∈ xs.map Prod.snd, f.slot ≠ e.slot := by
    intro f hf hslot
    obtain ⟨⟨b, f⟩, hbf, rfl⟩ := List.mem_map.1 hf
    obtain ⟨last', hb⟩ := (h.applying b f).1 (by rw [hsplit]; exact List.mem_append_left _ hbf)
    obtain ⟨_, _, _, hown⟩ := h.excludes b _ hb
    have hown : m.Owns b f.slot := hown
    rw [hslot] at hown
    rw [owns_unique hown howns] at hbf
    exact hout f (List.mem_append_left _ hbf)
  let store := { m.base.store with index := applyEntry m.base.store.index e }
  have hmoved := Machine.returned_moved (X := X) (m := { m.base with store }) (h.locked a agent ha) last
  have hlags : m.base.store.Lags X (xs.map Prod.snd ++ e :: ys.map Prod.snd) := by
    have := h.lags
    rwa [hsplit, List.map_append, List.map_cons] at this
  refine ⟨xs ++ ys, h.move (a := a) ⟨hmoved.store.attached.trans h.attached, hmoved.store.io h.io, ?_⟩
    (hmoved.locked h.locked) (fun b hb => ?_) hmoved.others hmoved.locks (fun b hb hr => ?_) hnodup.2
    (fun b f hb => ?_) (fun f => ?_) fun phase hphase => ?_⟩
  · have happlied : store.Lags X (xs.map Prod.snd ++ ys.map Prod.snd) := hlags.apply hslots rfl rfl
    rw [List.map_append]
    exact happlied.congr hmoved.store.log hmoved.store.index
  · simp [LogMachine.apply, done, Ne.symm hb]
  · simp only [LogMachine.apply, done, hr]
    rw [if_neg (by simpa using hb)]
  · rw [hsplit]
    simp [hb]
  · refine iff_of_false (hout f) ?_
    simp [LogMachine.apply, done]
  · simp [LogMachine.apply, done] at hphase

theorem advance (h : InOrder X m pending) {agent : Agent} (ha : m.base.agents[a]? = some agent) :
    ∃ pending', InOrder X (m.advance X a agent) pending' := by
  have hold := h.locked a agent ha
  unfold LogMachine.advance
  cases hphase : m.phases[a]? with
  | none =>
    have hnot : ∀ e last, m.phases[a]? ≠ some (.applying e last) := by simp [hphase]
    have hrefs : ((∃ id path, agent.deed X m.base.store = .referenced id path) ∨
        ∃ id, agent.deed X m.base.store = .dropped id) → InOrder X (m.lockRefs a) pending := by
      intro hdeed
      unfold LogMachine.lockRefs
      split_ifs with hfree
      · exact h
      · have hnone : m.refLock = none := by simpa using hfree
        refine h.move (a := a) ⟨h.attached, h.io, h.lags⟩ h.locked
          (fun b hb => by rw [FinMap.get_insert, if_neg (Ne.symm hb)]) (fun _ _ => rfl)
          (fun _ _ _ hk => hk) (fun b _ hr => by rw [hnone] at hr; cases hr) h.nodup
          (fun _ _ _ => Iff.rfl) (fun e => ?_) fun phase hp => ?_
        · rw [h.applying, FinMap.get_insert, if_pos rfl, hphase]
          simp
        · rw [FinMap.get_insert, if_pos rfl] at hp
          cases hp
          refine ⟨agent, ha, ?_, rfl, takesRef_of_deed hdeed⟩
          rintro session rfl
          simp [Agent.deed] at hdeed
    have helse : (agent.deed X m.base.store).onIndex = false →
        InOrder X { m with base := m.base.advance X a agent } pending := by
      intro hdeed
      refine h.moved (Machine.advance_moved ha hold hdeed) (fun b => ?_) rfl (fun _ _ hr => hr) hnot
      show m.phases[b]? = _
      split_ifs with hb
      · rw [hb, hphase]
      · rfl
    dsimp only
    split
    · rename_i manifest hdeed
      refine ⟨_, h.append false ha ?_ hnot (hold _ (relies_of_put hdeed))⟩
      rintro session rfl
      cases hdeed
    · rename_i key hdeed
      refine ⟨_, h.append false ha ?_ hnot (hold _ (relies_of_removed hdeed))⟩
      rintro session rfl
      cases hdeed
    · rename_i id path hdeed
      exact ⟨_, hrefs (.inl ⟨id, path, hdeed⟩)⟩
    · rename_i id hdeed
      exact ⟨_, hrefs (.inr ⟨id, hdeed⟩)⟩
    · refine ⟨_, helse ?_⟩
      cases hdeed : agent.deed X m.base.store <;> simp_all [Deed.onIndex]
  | some phase =>
    obtain ⟨agent', ha', hbusy, hex⟩ := h.excludes a phase hphase
    obtain rfl : agent = agent' := Option.some.inj (ha.symm.trans ha')
    cases phase with
    | locked =>
      obtain ⟨href, htakes⟩ := hex
      dsimp only [LogMachine.readRef]
      split
      · rename_i e he
        refine ⟨pending, h.move (a := a) ⟨h.attached, h.io, h.lags⟩ h.locked
          (fun b hb => by rw [FinMap.get_insert, if_neg (Ne.symm hb)]) (fun _ _ => rfl)
          (fun _ _ _ hk => hk) (fun _ _ hr => hr) h.nodup (fun _ _ _ => Iff.rfl) (fun f => ?_)
          fun phase hp => ?_⟩
        · rw [h.applying, FinMap.get_insert, if_pos rfl, hphase]
          simp
        · rw [FinMap.get_insert, if_pos rfl] at hp
          cases hp
          exact ⟨agent, ha, hbusy, href, slot_of_takesRef htakes he⟩
      · refine ⟨pending, h.moved (Machine.returned_moved hold false) (fun b => ?_) rfl
          (fun b hb hr => ?_) (by simp [hphase])⟩
        · simp only [done, FinMap.get_erase, eq_comm]
        · simp only [done, hr]
          rw [if_neg (by simpa using hb)]
    | writing e last =>
      obtain ⟨href, hex, hslot⟩ := hex
      exact ⟨_, h.append last ha hbusy (by simp [hphase]) (by rw [hslot]; exact href)⟩
    | applying e last => exact h.apply ha hphase

theorem step (h : InOrder X m pending) (action : Action) :
    ∃ pending', InOrder X (m.step X action) pending' := by
  by_cases hadv : ∃ a, action = .advance a
  · obtain ⟨a, rfl⟩ := hadv
    rw [LogMachine.step]
    cases ha : m.base.agents[a]? with
    | none => exact ⟨pending, h⟩
    | some agent => exact h.advance ha
  · have hcalled := Machine.step_called (X := X) h.locked fun a ha => hadv ⟨a, ha⟩
    have hstep : m.step X action = { m with base := m.base.step X action } := by
      cases action with
      | advance a => exact absurd ⟨a, rfl⟩ hadv
      | _ => rfl
    rw [hstep]
    refine ⟨pending, hcalled.store.attached.trans h.attached, hcalled.store.io h.io, hcalled.locked,
      h.lags.congr hcalled.store.log hcalled.store.index, h.nodup, h.applying, fun b phase hb => ?_⟩
    obtain ⟨agent, hagent, hbusy, hex⟩ := h.excludes b phase hb
    exact ⟨agent, hcalled.busy b agent hagent hbusy, hbusy,
      hex.congr (fun k hk => hcalled.locks ▸ hk) id⟩

theorem run : ∀ (actions : List Action) {m : LogMachine} {pending : List (Nat × LogEntry)},
    InOrder X m pending → ∃ pending', InOrder X (m.run X actions) pending'
  | [], _, pending, h => ⟨pending, h⟩
  | action :: actions, _, _, h =>
    let ⟨_, h'⟩ := h.step action
    run actions h'

end InOrder

end LogMachine

/-- **The log agrees with memory whenever no call is in progress**, whatever the interleaving of calls
whose entries are appended and applied in two steps. -/
theorem log_in_order (hX : X.Lawful) (engine : StorageEngine) (dataDir : String)
    (actions : List Action) :
    let m := (LogMachine.start engine dataDir).run X actions
    m.Quiet → ∃ entries, Index.openLog X m.base.store.log
      = .ok (m.base.store.index, entries, m.base.store.log) := by
  intro m hquiet
  obtain ⟨pending, h⟩ := (LogMachine.InOrder.start engine dataDir).run (X := X) actions
  -- an agent with an entry to apply is in a call
  have hnil : pending = [] := by
    refine List.eq_nil_iff_forall_not_mem.2 fun p hp => ?_
    obtain ⟨last, hphase⟩ := (h.applying p.1 p.2).1 hp
    obtain ⟨agent, hagent, hbusy, -⟩ := h.excludes p.1 _ hphase
    obtain ⟨session, rfl⟩ := hquiet p.1 agent hagent
    exact hbusy session rfl
  obtain ⟨es, hlog, hes⟩ := h.lags
  rw [hnil] at hes
  have hes : replayLog es = m.base.store.index := hes
  exact ⟨es.length, by rw [hlog, ← hes]; exact openLog_logBytes hX es⟩

/-- Two stores; the entry appended first is applied last. -/
def crossing : List Action :=
  [.begin 1 "a" "" [], .begin 2 "b" "" [], .finish 1, .finish 2] ++
    [1, 1, 1, 2, 2, 2, 1, 2, 2, 1, 1, 2].map .advance

theorem log_in_order_crossing :
    let m := (LogMachine.start ⟨1, 0, false⟩ "data").run .reference crossing
    ∃ entries, Index.openLog .reference m.base.store.log
      = .ok (m.base.store.index, entries, m.base.store.log) := by
  have hempty : ((LogMachine.start ⟨1, 0, false⟩ "data").run .reference crossing).base.agents.isEmpty
      = true := by decide +kernel
  refine log_in_order Crates.reference_lawful ⟨1, 0, false⟩ "data" crossing fun a agent ha => ?_
  rw [ExtTreeMap.isEmpty_iff] at hempty
  simp [hempty] at ha

end KaidaDB
