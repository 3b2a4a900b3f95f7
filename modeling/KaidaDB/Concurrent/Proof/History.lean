import KaidaDB.Concurrent.History
import KaidaDB.Concurrent.Proof.Reader

/-!
# Calls at the same time are linearizable

Every history of sessions, deletes and renames that run at the same time is one of the sequential object
store, in the order in which the calls take effect (`Machine.Tracks`): an agent that is about to change what
is under a key holds the key's lock since it looked it up. Where a rename has put the manifest under the new
key and not yet removed the old one, the object is still under the old key only (`Machine.Arriving`).
-/

namespace KaidaDB

open Std Effects Linearizable

variable {X : Crates}

/-! ## Calls in progress -/

/-- The call that an agent is in. -/
inductive Progress where
  | between
  | writing
  | finishing
  /-- The manifest has been put. -/
  | finished (key : String)
  | aborting
  | deleting (key : String)
  | renaming (fromKey toKey : String)

namespace Agent

def progress : Agent → Progress
  | .idle _ => .between
  | .writing _ _ | .checking _ _ (.loop _) | .creating _ _ (.loop _) | .referencing _ _ (.loop _) => .writing
  | .checking _ _ .commit | .creating _ _ .commit | .referencing _ _ .commit | .committing _
  | .locking _ _ | .looking _ _ | .putting _ _ _ => .finishing
  | .releasing (.replaced key) _ | .unlinking (.replaced key) _ _ => .finished key
  | .releasing .aborted _ | .unlinking .aborted _ _ => .aborting
  | .deleting key | .deleteLooking key | .releasing (.deleted key _) _ | .unlinking (.deleted key _) _ _
  | .removing key _ => .deleting key
  | .renameLocking fromKey toKey | .renamingLocked fromKey toKey | .renameLooking fromKey toKey
  | .renameChecking fromKey toKey _ | .moving fromKey toKey _ | .removingOld fromKey toKey _ =>
    .renaming fromKey toKey

/-- The upload of an agent that has not committed or aborted it: its key, its limit and how many bytes it has
accepted. -/
def upload? : Agent → Option (String × Nat × Nat)
  | .idle s => some (s.key, s.maxObjectSize, s.bytesWritten)
  | .writing s rest => some (s.key, s.maxObjectSize, s.bytesWritten + rest.length)
  | .checking s chunk next | .creating s chunk next | .referencing s chunk next =>
    some (s.key, s.maxObjectSize, s.bytesWritten + chunk.length + next.rest.length)
  | .committing s => some (s.key, s.maxObjectSize, s.bytesWritten)
  | .locking s manifest | .looking s manifest | .putting s manifest _ =>
    some (manifest.key, s.maxObjectSize, s.bytesWritten)
  | _ => none

/-- The new key of a rename that has put its manifest. -/
def arriving? : Agent → Option String
  | .removingOld _ toKey _ => some toKey
  | _ => none

theorem not_arriving {agent : Agent} {key : String} (h : agent.arriving? = none) :
    agent.arriving? ≠ some key := by simp [h]

/-- The agent goes on with its call, and nothing has taken effect. -/
def Onto (agent : Agent) (r : Option Agent) : Prop :=
  ∃ new, r = some new ∧ new.progress = agent.progress ∧ new.upload? = agent.upload? ∧ new.arriving? = none

/-- What becomes of an agent. -/
def Goes (s : Store) (agent : Agent) (r : Option Agent) : Prop :=
  match agent with
  | .writing session [] => r = some (.idle session)
  | .putting _ manifest _ => ∃ chunks, r = some (.releasing (.replaced manifest.key) chunks)
  | .releasing (.replaced _) [] | .releasing .aborted [] | .removing _ _ | .removingOld _ _ _ => r = none
  | .moving fromKey toKey manifest => r = some (.removingOld fromKey toKey manifest)
  | .deleteLooking key | .renameLooking key _ =>
    if s.index.manifests.contains key then agent.Onto r else r = none
  | .renameChecking _ toKey _ => if s.index.manifests.contains toKey then r = none else agent.Onto r
  | agent => agent.Onto r

end Agent

namespace Agent.Onto

variable {m : Machine} {a : Nat} {agent : Agent}

theorem become {new : Agent} (m : Machine) (hphase : new.progress = agent.progress := by rfl)
    (hupload : new.upload? = agent.upload? := by rfl) (harriving : new.arriving? = none := by rfl) :
    agent.Onto (m.become a new).agents[a]? := ⟨new, Machine.become_get m a new, hphase, hupload, harriving⟩

theorem resume {session : StoreSession} {next : Next}
    (hphase : agent.progress = match next with | .loop _ => .writing | .commit => .finishing)
    (hupload : agent.upload? = some (session.key, session.maxObjectSize,
      session.bytesWritten + next.rest.length)) (m : Machine) :
    agent.Onto (m.resume a session next).agents[a]? := by
  cases next with
  | loop rest => exact become m hphase.symm hupload.symm
  | commit => exact become m hphase.symm hupload.symm

theorem flush {session : StoreSession} {next : Next}
    (hphase : agent.progress = match next with | .loop _ => .writing | .commit => .finishing)
    (hupload : agent.upload? = some (session.key, session.maxObjectSize,
      session.bytesWritten + next.rest.length)) (m : Machine) :
    agent.Onto (m.flush a session next).agents[a]? := by
  unfold Machine.flush
  split_ifs
  · exact .resume hphase hupload m
  · refine .become m ?_ ?_
    · cases next <;> exact hphase.symm
    · rw [hupload]
      simp [Agent.upload?, StoreSession.bytesWritten]

/-- An agent that waits stays where it is. -/
theorem lock {new : Agent} (ha : m.agents[a]? = some agent) (key : String)
    (hphase : new.progress = agent.progress := by rfl) (hupload : new.upload? = agent.upload? := by rfl)
    (hold : agent.arriving? = none := by rfl) (hnew : new.arriving? = none := by rfl) :
    agent.Onto (m.lock a key new).agents[a]? := by
  unfold Machine.lock
  split_ifs
  · exact ⟨agent, ha, rfl, rfl, hold⟩
  · exact ⟨new, by simp, hphase, hupload, hnew⟩

end Agent.Onto

namespace Machine

variable {m m' : Machine} {a b : Nat} {agent : Agent}

theorem leave_get (m : Machine) (a : Nat) (agent : Agent) : (m.leave a agent).agents[a]? = none := by
  simp [leave]

/-- From `m` to `m'` agent `a` has taken its next step. -/
def Turns (a : Nat) (agent : Agent) (m m' : Machine) : Prop := agent.Goes m.store m'.agents[a]?

namespace Turns

theorem onto (honto : agent.Onto m'.agents[a]?) (hgoes : agent.Goes m.store = agent.Onto) :
    Turns a agent m m' := by
  rw [Turns, hgoes]
  exact honto

theorem found {key : String} {manifest : MediaManifest} {P Q : Prop}
    (hfound : m.store.view.index.manifests[key]? = some manifest) (hP : P) :
    if m.store.index.manifests.contains key then P else Q := by
  have hfound : m.store.index.manifests[key]? = some manifest := hfound
  rwa [if_pos (by rw [FinMap.contains_iff, hfound]; rfl)]

theorem missing {key : String} {P Q : Prop} (hfound : m.store.view.index.manifests[key]? = none)
    (hQ : Q) : if m.store.index.manifests.contains key then P else Q := by
  have hfound : m.store.index.manifests[key]? = none := hfound
  rwa [if_neg (by rw [FinMap.contains_iff, hfound]; simp)]

end Turns

/-- **What becomes of an agent** that goes on. -/
theorem advance_turns (h : m.Balanced) (ha : m.agents[a]? = some agent) :
    Turns a agent m (m.advance X a agent) := by
  cases agent with
  | idle session => exact .onto ⟨_, ha, rfl, rfl, rfl⟩ rfl
  | writing session rest =>
    cases rest with
    | nil => exact become_get m a _
    | cons b rest =>
      simp only [Machine.advance, reduceCtorEq, if_false]
      split_ifs
      · refine .onto (.flush rfl ?_ m) rfl
        simp [Agent.upload?, StoreSession.bytesWritten, Next.rest]
        omega
      · refine .onto (.become m rfl ?_) rfl
        simp [Agent.upload?, StoreSession.bytesWritten]
        omega
  | checking session chunk next =>
    rw [Machine.advance]
    refine exec_of_does (P := Turns a _ m) h.attached (does_chunkExists (X := X)) fun s hs hv => ?_
    refine .onto ?_ rfl
    split_ifs
    · exact .become _ (by cases next <;> rfl)
    · exact .become _ (by cases next <;> rfl)
  | creating session chunk next =>
    rw [Machine.advance]
    refine exec_of_does (P := Turns a _ m) h.attached (does_createChunk h.calm.write) fun s hs hv => ?_
    exact .onto (.become _ (by cases next <;> rfl)) rfl
  | referencing session chunk next =>
    rw [Machine.advance]
    refine exec_of_does (P := Turns a _ m) h.attached (does_addChunkRef (h.calm.appends false))
      fun s hs hv => ?_
    refine .onto (.resume (by cases next <;> rfl) ?_ _) rfl
    simp [Agent.upload?, StoreSession.bytesWritten, StoreSession.addChunk]
    omega
  | committing session =>
    rw [Machine.advance]
    refine exec_of_does (P := Turns a _ m) h.attached (does_nowSecs (X := X)) fun s hs hv => ?_
    exact .onto (.become _) rfl
  | locking session manifest =>
    rw [Machine.advance]
    exact .onto (.lock ha _) rfl
  | looking session manifest =>
    rw [Machine.advance]
    refine exec_of_does (P := Turns a _ m) h.attached (does_getManifest (X := X)) fun s hs hv => ?_
    exact .onto (.become _) rfl
  | putting session manifest previous =>
    rw [Machine.advance]
    refine exec_of_does (P := Turns a _ m) h.attached
      (does_putManifest (h.calm.appends true) h.calm.compact) fun s hs hv => ?_
    exact ⟨_, become_get _ a _⟩
  | releasing why chunks =>
    cases chunks with
    | nil =>
      cases why with
      | deleted key manifest => exact .onto (.become m) rfl
      | replaced key => exact leave_get m a _
      | aborted => exact leave_get m a _
    | cons chunk chunks =>
      rw [Machine.advance]
      refine exec_of_does (P := Turns a _ m) h.attached (does_decrement h.calm chunk) fun s hs hv => ?_
      refine .onto ?_ (by cases why <;> rfl)
      split_ifs
      · exact .become _ (by cases why <;> rfl) (by cases why <;> rfl)
      · exact .become _ (by cases why <;> rfl) (by cases why <;> rfl)
  | unlinking why chunk chunks =>
    rw [Machine.advance]
    refine exec_of_does (P := Turns a _ m) h.attached (does_deleteChunk (X := X) h.calm.remove)
      fun s hs hv => ?_
    exact .onto (.become _ (by cases why <;> rfl) (by cases why <;> rfl)) (by cases why <;> rfl)
  | deleting key =>
    rw [Machine.advance]
    exact .onto (.lock ha _) rfl
  | deleteLooking key =>
    rw [Machine.advance]
    refine exec_of_does (P := Turns a _ m) h.attached (does_getManifest (X := X)) fun s hs hv => ?_
    cases hfound : m.store.view.index.manifests[key]? with
    | none => exact Turns.missing hfound (leave_get _ a _)
    | some manifest => exact Turns.found hfound (Agent.Onto.become _)
  | removing key manifest =>
    rw [Machine.advance]
    refine exec_of_does (P := Turns a _ m) h.attached
      (does_deleteManifest (h.calm.appends true) h.calm.compact) fun s hs hv => ?_
    exact leave_get _ a _
  | renameLocking fromKey toKey =>
    rw [Machine.advance]
    exact .onto (.lock ha _) rfl
  | renamingLocked fromKey toKey =>
    rw [Machine.advance]
    exact .onto (.lock ha _) rfl
  | renameLooking fromKey toKey =>
    rw [Machine.advance]
    refine exec_of_does (P := Turns a _ m) h.attached (does_getManifest (X := X)) fun s hs hv => ?_
    cases hfound : m.store.view.index.manifests[fromKey]? with
    | none => exact Turns.missing hfound (leave_get _ a _)
    | some manifest => exact Turns.found hfound (Agent.Onto.become _)
  | renameChecking fromKey toKey manifest =>
    have hx : Does (lens X false) (do return (← Index.getManifest toKey, ← nowSecs) : M _)
        m.store.view _ _ := Does.bind does_getManifest (Does.bind does_nowSecs (Does.pure _))
    rw [Machine.advance]
    refine exec_of_does (P := Turns a _ m) h.attached hx fun s hs hv => ?_
    cases hfound : m.store.view.index.manifests[toKey]? with
    | none => exact Turns.missing hfound (Agent.Onto.become _)
    | some _ => exact Turns.found hfound (leave_get _ a _)
  | moving fromKey toKey manifest =>
    rw [Machine.advance]
    refine exec_of_does (P := Turns a _ m) h.attached
      (does_putManifest (h.calm.appends true) h.calm.compact) fun s hs hv => ?_
    exact become_get _ a _
  | removingOld fromKey toKey manifest =>
    rw [Machine.advance]
    refine exec_of_does (P := Turns a _ m) h.attached
      (does_deleteManifest (h.calm.appends true) h.calm.compact) fun s hs hv => ?_
    exact leave_get _ a _

/-- From `m` to `m'` no other agent moves. -/
structure KeepsOthers (a : Nat) (m m' : Machine) : Prop where
  engine : m'.engine = m.engine
  agents : ∀ b : Nat, b ≠ a → m'.agents[b]? = m.agents[b]?

namespace KeepsOthers

theorem refl (m : Machine) (s : Store) : KeepsOthers a m { m with store := s } := ⟨rfl, fun _ _ => rfl⟩

theorem become (m : Machine) (s : Store) (new : Agent) :
    KeepsOthers a m (({ m with store := s } : Machine).become a new) :=
  ⟨rfl, fun _ hb => become_get_ne { m with store := s } new hb⟩

theorem erase (m : Machine) (s : Store) (locks : ExtTreeMap String Nat) :
    KeepsOthers a m { m with store := s, agents := m.agents.erase a, locks := locks } :=
  ⟨rfl, fun b hb => by simp [Ne.symm hb]⟩

theorem leave (m : Machine) (s : Store) (old : Agent) :
    KeepsOthers a m (({ m with store := s } : Machine).leave a old) := erase m s _

theorem lock (m : Machine) (key : String) (new : Agent) : KeepsOthers a m (m.lock a key new) := by
  unfold Machine.lock
  split_ifs
  · exact refl m m.store
  · exact ⟨rfl, fun b hb => become_get_ne m new hb⟩

theorem resume (m : Machine) (s : Store) (session : StoreSession) (next : Next) :
    KeepsOthers a m (({ m with store := s } : Machine).resume a session next) := by
  cases next <;> exact become m s _

theorem flush (m : Machine) (session : StoreSession) (next : Next) :
    KeepsOthers a m (m.flush a session next) := by
  unfold Machine.flush
  split_ifs
  · exact resume m m.store session next
  · exact become m m.store _

theorem flushFailed (m : Machine) (s : Store) (session : StoreSession) (next : Next) :
    KeepsOthers a m (({ m with store := s } : Machine).flushFailed a session next) := by
  cases next with
  | loop rest => exact become m s _
  | commit => exact erase m s m.locks

theorem exec {α : Type} {x : M α} {ok : Machine → α → Machine} {failed : Machine → Machine}
    (hok : ∀ s v, KeepsOthers a m (ok { m with store := s } v))
    (hfailed : ∀ s, KeepsOthers a m (failed { m with store := s })) :
    KeepsOthers a m (m.exec x ok failed) := by
  unfold Machine.exec
  split
  · exact hok _ _
  · exact hfailed _

end KeepsOthers

/-- The other agents stay where they are. -/
theorem advance_keepsOthers (X : Crates) (m : Machine) (a : Nat) (agent : Agent) :
    KeepsOthers a m (m.advance X a agent) := by
  unfold Machine.advance
  cases agent with
  | idle session => exact .refl m m.store
  | writing session rest =>
    dsimp only
    split_ifs
    · exact .become m m.store _
    · exact .flush m _ _
    · exact .become m m.store _
  | checking session chunk next =>
    exact .exec (fun s _ => .become m s _) fun s => .flushFailed m s _ _
  | creating session chunk next =>
    exact .exec (fun s _ => .become m s _) fun s => .flushFailed m s _ _
  | referencing session chunk next =>
    exact .exec (fun s _ => .resume m s _ _) fun s => .flushFailed m s _ _
  | committing session => exact .exec (fun s _ => .become m s _) fun s => .refl m s
  | locking session manifest => exact .lock m _ _
  | looking session manifest => exact .exec (fun s _ => .become m s _) fun s => .leave m s _
  | putting session manifest previous => exact .exec (fun s _ => .become m s _) fun s => .leave m s _
  | releasing why chunks =>
    cases chunks with
    | nil =>
      cases why with
      | deleted key manifest => exact .become m m.store _
      | _ => exact .leave m m.store _
    | cons chunk chunks =>
      refine .exec (fun s _ => .become m s _) fun s => ?_
      cases why with
      | aborted => exact .become m s _
      | _ => exact .leave m s _
  | unlinking why chunk chunks =>
    refine .exec (fun s _ => .become m s _) fun s => ?_
    cases why with
    | deleted key manifest => exact .leave m s _
    | _ => exact .become m s _
  | deleting key => exact .lock m _ _
  | deleteLooking key =>
    refine .exec (fun s found => ?_) fun s => .leave m s _
    cases found with
    | none => exact .leave m s _
    | some manifest => exact .become m s _
  | removing key manifest => exact .exec (fun s _ => .leave m s _) fun s => .leave m s _
  | renameLocking fromKey toKey => exact .lock m _ _
  | renamingLocked fromKey toKey => exact .lock m _ _
  | renameLooking fromKey toKey =>
    refine .exec (fun s found => ?_) fun s => .leave m s _
    cases found with
    | none => exact .leave m s _
    | some manifest => exact .become m s _
  | renameChecking fromKey toKey manifest =>
    refine .exec (fun s found => ?_) fun s => .leave m s _
    obtain ⟨found, now⟩ := found
    cases found with
    | none => exact .become m s _
    | some other => exact .leave m s _
  | moving fromKey toKey manifest => exact .exec (fun s _ => .become m s _) fun s => .leave m s _
  | removingOld fromKey toKey manifest => exact .exec (fun s _ => .leave m s _) fun s => .leave m s _

/-! ## The invariant -/

end Machine

/-- The call a thread is in, as a progress and for the monitor. -/
def Progress.Runs (a : Nat) : Progress → Option (Nat × Call × Option Answer) → Prop
  | .between, current => current = none
  | .writing, current => ∃ i data, current = some (i, .write a data, some .done)
  | .finishing, current => ∃ i, current = some (i, .finish a, none)
  | .finished key, current => ∃ i, current = some (i, .finish a, some (.stored key))
  | .aborting, current => ∃ i, current = some (i, .abort a, some .done)
  | .deleting key, current => ∃ i, current = some (i, .delete key, none)
  | .renaming fromKey toKey, current => validateKey toKey = .ok () ∧ fromKey ≠ toKey ∧
      ∃ i, current = some (i, .rename fromKey toKey, none)

def Upload.measure (u : Upload) : String × Nat × Nat := (u.key, u.limit, u.bytes.length)

namespace Machine

variable {m m' : Machine} {a : Nat}

/-- A rename has put its manifest under this key, and not yet removed the one under the old key. -/
def Arriving (m : Machine) (key : String) : Prop :=
  ∃ (a : Nat) (agent : Agent), m.agents[a]? = some agent ∧ agent.arriving? = some key

theorem arriving_mem_holds {agent : Agent} {key : String} (h : agent.arriving? = some key) :
    key ∈ agent.holds := by
  cases agent with
  | removingOld fromKey toKey manifest =>
    cases h
    exact to_mem_locks _ _
  | _ => cases h

theorem eq_of_mem_locks {fromKey toKey key : String}
    (h : key ∈ [firstLock fromKey toKey, secondLock fromKey toKey]) : key = fromKey ∨ key = toKey := by
  unfold firstLock secondLock at h
  split_ifs at h
  · simpa using h
  · simpa [or_comm] using h

/-- The machine, what its clients know, and the sequential object store. -/
structure Tracks (X : Crates) (m : Machine) (c : Contents)
    (mon : Monitor Spec Nat Call Answer) : Prop where
  holds : Holds X Set.univ m c
  engine : mon.state.engine = m.engine
  calls : ∀ a : Nat, ((m.agents[a]?).elim .between Agent.progress).Runs a (mon.current a)
  uploads : ∀ a : Nat, (mon.state.uploads[a]?).map Upload.measure = (m.agents[a]?).bind Agent.upload?
  bytes : ∀ (a : Nat) u, mon.state.uploads[a]? = some u → c.uploads[a]? = some u.bytes
  objects : ∀ key : String, ¬ m.Arriving key → mon.state.objects[key]? = c.objects[key]?
  arriving : ∀ (a : Nat) fromKey toKey manifest,
    m.agents[a]? = some (.removingOld fromKey toKey manifest) →
    mon.state.objects[toKey]? = none ∧ c.objects[toKey]? = c.objects[fromKey]?

namespace Tracks

variable {c c' : Contents} {mon mon' : Monitor Spec Nat Call Answer} {s : Spec}
  {current : Option (Nat × Call × Option Answer)} (h : Tracks X m c mon)
include h

/-- One agent moves, and what is under the keys whose locks it holds may change. -/
theorem move (hturns : mon.Turns mon' a s current) (hholds : Holds X Set.univ m' c')
    (hothers : KeepsOthers a m m') (hengine : s.engine = mon.state.engine)
    (hcall : ((m'.agents[a]?).elim .between Agent.progress).Runs a current)
    (huploads : ∀ b : Nat, b ≠ a → s.uploads[b]? = mon.state.uploads[b]? ∧ c'.uploads[b]? = c.uploads[b]?)
    (hupload : (s.uploads[a]?).map Upload.measure = (m'.agents[a]?).bind Agent.upload?)
    (hbytes : ∀ u, s.uploads[a]? = some u → c'.uploads[a]? = some u.bytes)
    (held : List String) (hheld : ∀ key ∈ held, m.locks[key]? = some a)
    (harriving : ∀ agent, m.agents[a]? = some agent → ∀ key, agent.arriving? = some key → key ∈ held)
    (hframe : ∀ key : String, key ∉ held →
      s.objects[key]? = mon.state.objects[key]? ∧ c'.objects[key]? = c.objects[key]?)
    (hobjects : ∀ key ∈ held, (∀ new, m'.agents[a]? = some new → new.arriving? ≠ some key) →
      s.objects[key]? = c'.objects[key]?)
    (hnew : ∀ new, m'.agents[a]? = some new → ∀ fromKey toKey manifest,
      new = .removingOld fromKey toKey manifest →
      s.objects[toKey]? = none ∧ c'.objects[toKey]? = c'.objects[fromKey]?) :
    Tracks X m' c' mon' where
  holds := hholds
  engine := by rw [hturns.state, hengine, h.engine, hothers.engine]
  calls b := by
    rw [hturns.current]
    by_cases hb : b = a
    · subst hb
      rwa [Function.update_self]
    · rw [Function.update_of_ne hb, hothers.agents b hb]
      exact h.calls b
  uploads b := by
    rw [hturns.state]
    by_cases hb : b = a
    · subst hb
      exact hupload
    · rw [(huploads b hb).1, hothers.agents b hb]
      exact h.uploads b
  bytes b u hu := by
    rw [hturns.state] at hu
    by_cases hb : b = a
    · subst hb
      exact hbytes u hu
    · rw [(huploads b hb).1] at hu
      exact (huploads b hb).2.trans (h.bytes b u hu)
  objects key hkey := by
    rw [hturns.state]
    by_cases hmem : key ∈ held
    · exact hobjects key hmem fun new hagent hnew => hkey ⟨a, new, hagent, hnew⟩
    · rw [(hframe key hmem).1, (hframe key hmem).2]
      refine h.objects key ?_
      rintro ⟨b, agent, hb, hagent⟩
      by_cases hba : b = a
      · subst hba
        exact hmem (harriving agent hb key hagent)
      · exact hkey ⟨b, agent, (hothers.agents b hba).trans hb, hagent⟩
  arriving b fromKey toKey manifest hb := by
    rw [hturns.state]
    by_cases hba : b = a
    · subst hba
      exact hnew _ hb fromKey toKey manifest rfl
    · rw [hothers.agents b hba] at hb
      have hunheld : ∀ key ∈ [firstLock fromKey toKey, secondLock fromKey toKey], key ∉ held := by
        intro key hkey hmem
        have hlock := h.holds.balanced.locked b _ hb key hkey
        rw [hheld key hmem] at hlock
        exact hba (Option.some.inj hlock).symm
      have hto := hunheld toKey (to_mem_locks _ _)
      have hfrom := hunheld fromKey (from_mem_locks _ _)
      rw [(hframe toKey hto).1, (hframe toKey hto).2, (hframe fromKey hfrom).2]
      exact h.arriving b fromKey toKey manifest hb

/-- One agent moves, and no object changes. -/
theorem quiet (hturns : mon.Turns mon' a s current) (hholds : Holds X Set.univ m' c')
    (hothers : KeepsOthers a m m') (hengine : s.engine = mon.state.engine)
    (hcall : ((m'.agents[a]?).elim .between Agent.progress).Runs a current)
    (huploads : ∀ b : Nat, b ≠ a → s.uploads[b]? = mon.state.uploads[b]? ∧ c'.uploads[b]? = c.uploads[b]?)
    (hupload : (s.uploads[a]?).map Upload.measure = (m'.agents[a]?).bind Agent.upload?)
    (hbytes : ∀ u, s.uploads[a]? = some u → c'.uploads[a]? = some u.bytes)
    (hobjects : s.objects = mon.state.objects) (hsame : c'.objects = c.objects)
    (hold : ∀ agent, m.agents[a]? = some agent → agent.arriving? = none)
    (hnew : ∀ new, m'.agents[a]? = some new → new.arriving? = none) : Tracks X m' c' mon' := by
  refine h.move hturns hholds hothers hengine hcall huploads hupload hbytes [] (by simp)
    (fun agent hagent key hkey => ?_) (fun key _ => by rw [hobjects, hsame]; exact ⟨rfl, rfl⟩)
    (by simp)
    (fun new hagent fromKey toKey manifest heq => ?_)
  · rw [hold agent hagent] at hkey
    cases hkey
  · have hnone := hnew new hagent
    rw [heq] at hnone
    cases hnone

/-- An agent goes on, and nothing takes effect. -/
theorem onto {agent : Agent} (ha : m.agents[a]? = some agent) (honto : agent.Onto m'.agents[a]?)
    (hholds : Holds X Set.univ m' c) (hothers : KeepsOthers a m m')
    (hold : agent.arriving? = none) : Tracks X m' c mon := by
  obtain ⟨new, hnew, hphase, hupload, harriving⟩ := honto
  have hturns : mon.Turns mon a mon.state (mon.current a) := ⟨rfl, (Function.update_eq_self a _).symm⟩
  have hcall := h.calls a
  have huploads := h.uploads a
  rw [ha] at hcall huploads
  refine h.quiet hturns hholds hothers rfl ?_ (fun b hb => ⟨rfl, rfl⟩) ?_
    (h.bytes a) rfl rfl (fun agent' hagent => ?_) (fun new' hagent => ?_)
  · rw [hnew, Option.elim_some, hphase]
    exact hcall
  · rw [hnew]
    exact huploads.trans hupload.symm
  · rw [ha] at hagent
    cases hagent
    exact hold
  · rw [hnew] at hagent
    cases hagent
    exact harriving

/-- What is under a key whose lock an agent holds. -/
theorem locked {agent : Agent} (ha : m.agents[a]? = some agent) {key : String} (hkey : key ∈ agent.holds)
    (hagent : agent.arriving? ≠ some key) : mon.state.objects[key]? = c.objects[key]? := by
  refine h.objects key ?_
  rintro ⟨b, other, hb, harriving⟩
  have hlock := h.holds.balanced.locked b other hb key (arriving_mem_holds harriving)
  rw [h.holds.balanced.locked a agent ha key hkey] at hlock
  obtain rfl := Option.some.inj hlock
  rw [ha] at hb
  cases hb
  exact hagent harriving

/-- Manifests are there for objects. -/
theorem locked_isSome {agent : Agent} (ha : m.agents[a]? = some agent) (key : String)
    (hkey : key ∈ agent.holds) (hagent : agent.arriving? ≠ some key) :
    (mon.state.objects[key]?).isSome = m.store.index.manifests.contains key := by
  rw [h.locked ha hkey hagent, h.holds.objects.isSome key, ExtTreeMap.isSome_getElem?_eq_contains]

/-- The upload of an agent. -/
theorem upload {agent : Agent} (ha : m.agents[a]? = some agent) {key : String} {limit count : Nat}
    (hupload : agent.upload? = some (key, limit, count)) :
    ∃ u : Upload, mon.state.uploads[a]? = some u ∧ u.key = key ∧ u.limit = limit ∧ u.bytes.length = count := by
  have huploads := h.uploads a
  rw [ha, Option.bind_some, hupload] at huploads
  obtain ⟨u, hu, hmeasure⟩ := Option.map_eq_some_iff.1 huploads
  cases hmeasure
  exact ⟨u, hu, rfl, rfl, rfl⟩

theorem no_upload {agent : Agent} (ha : m.agents[a]? = some agent) (hupload : agent.upload? = none) :
    mon.state.uploads[a]? = none := by
  have huploads := h.uploads a
  rw [ha, Option.bind_some, hupload] at huploads
  exact Option.map_eq_none_iff.1 huploads

/-- An answer comes from a call that has taken effect. -/
theorem responds {agent : Agent} (ha : m.agents[a]? = some agent) {answer : Answer} {i : Nat} {call : Call}
    (hcurrent : mon.current a = some (i, call, some answer)) (hholds : Holds X Set.univ m' c)
    (hothers : KeepsOthers a m m') (hcall : (m'.agents[a]?).elim .between Agent.progress = .between)
    (hupload : (m'.agents[a]?).bind Agent.upload? = agent.upload?) (hold : agent.arriving? = none)
    (hnew : ∀ new, m'.agents[a]? = some new → new.arriving? = none) :
    ∃ mon', Run Spec.object mon [.event (.respond a answer)] mon' ∧ Tracks X m' c mon' := by
  obtain ⟨mon', hrun, hturns⟩ := exists_respond Spec.object hcurrent
  refine ⟨mon', hrun, h.quiet hturns hholds hothers rfl ?_ (fun b hb => ⟨rfl, rfl⟩) ?_ (h.bytes a) rfl rfl
    (fun other hother => ?_) hnew⟩
  · rw [hcall]
    rfl
  · have huploads := h.uploads a
    rw [ha, Option.bind_some] at huploads
    rw [huploads, hupload]
  · rw [ha] at hother
    cases hother
    exact hold

/-- A call of an agent without an upload takes effect and returns; it has the locks of the keys whose
objects change. -/
theorem returns {agent : Agent} (ha : m.agents[a]? = some agent) (hagent : agent.upload? = none) {i : Nat}
    {call : Call} (hcurrent : mon.current a = some (i, call, none)) {s : Spec} {answer : Answer}
    (hstep : mon.state.step call = (s, answer)) (hengine : s.engine = mon.state.engine)
    (huploads : s.uploads = mon.state.uploads) (hsent : c'.uploads = c.uploads)
    (hholds : Holds X Set.univ m' c') (hothers : KeepsOthers a m m') (hgone : m'.agents[a]? = none)
    (hframe : ∀ key : String, key ∉ agent.holds →
      s.objects[key]? = mon.state.objects[key]? ∧ c'.objects[key]? = c.objects[key]?)
    (hobjects : ∀ key ∈ agent.holds, s.objects[key]? = c'.objects[key]?) :
    ∃ mon', Run Spec.object mon (returning a answer) mon' ∧ Tracks X m' c' mon' := by
  obtain ⟨mon', hrun, hturns⟩ := exists_effect_respond Spec.object hcurrent hstep
  have hnone := h.no_upload ha hagent
  refine ⟨mon', hrun, h.move hturns hholds hothers hengine ?_ (fun b hb => ?_) ?_
    (fun u hu => ?_) _ (h.holds.balanced.locked a agent ha) (fun other hother key hkey => ?_) hframe
    (fun key hkey _ => hobjects key hkey) (fun new hnew => ?_)⟩
  · rw [hgone]
    rfl
  · rw [huploads, hsent]
    exact ⟨rfl, rfl⟩
  · rw [huploads, hnone, hgone]
    rfl
  · rw [huploads, hnone] at hu
    cases hu
  · rw [ha] at hother
    cases hother
    exact arriving_mem_holds hkey
  · rw [hgone] at hnew
    cases hnew

/-- It returns with an error, and nothing changes. -/
theorem returns_same {agent : Agent} (ha : m.agents[a]? = some agent) (hagent : agent.upload? = none)
    (harriving : agent.arriving? = none) {i : Nat} {call : Call}
    (hcurrent : mon.current a = some (i, call, none)) {answer : Answer}
    (hstep : mon.state.step call = (mon.state, answer)) (hholds : Holds X Set.univ m' c)
    (hothers : KeepsOthers a m m') (hgone : m'.agents[a]? = none) :
    ∃ mon', Run Spec.object mon (returning a answer) mon' ∧ Tracks X m' c mon' :=
  h.returns ha hagent hcurrent hstep rfl rfl rfl hholds hothers hgone (fun _ _ => ⟨rfl, rfl⟩)
    fun _ hkey => h.locked ha hkey (Agent.not_arriving harriving)

/-- The upload becomes visible. -/
theorem puts {session : StoreSession} {manifest : MediaManifest} {previous : Option MediaManifest}
    (ha : m.agents[a]? = some (.putting session manifest previous)) {chunks : List ChunkId}
    (hgoes : m'.agents[a]? = some (.releasing (.replaced manifest.key) chunks))
    (hholds : Holds X Set.univ m' (c.advance a (.putting session manifest previous)))
    (hothers : KeepsOthers a m m') :
    ∃ mon', Run Spec.object mon [.effect a (.stored manifest.key)] mon' ∧
      Tracks X m' (c.advance a (.putting session manifest previous)) mon' := by
  obtain ⟨u, hu, hkey, -, -⟩ := h.upload ha rfl
  obtain ⟨i, hcurrent⟩ : ∃ i, mon.current a = some (i, .finish a, none) := by
    have hcall := h.calls a
    rwa [ha] at hcall
  have hstep : mon.state.step (.finish a) = ({ mon.state with
      objects := mon.state.objects.insert manifest.key u.bytes
      uploads := mon.state.uploads.erase a }, .stored manifest.key) := by
    simp only [Spec.step, hu, hkey]
  have hc : c.advance a (.putting session manifest previous)
      = { c with objects := c.objects.insert manifest.key u.bytes } := by
    rw [Contents.advance, h.bytes a u hu]
    rfl
  obtain ⟨mon', hrun, hturns⟩ := exists_effect Spec.object hcurrent hstep
  rw [hc] at hholds ⊢
  refine ⟨mon', hrun, h.move hturns hholds hothers rfl ?_ (fun b hb => ?_) ?_ (fun u' hu' => ?_)
    _ (h.holds.balanced.locked a _ ha) (fun other hother key hkey => ?_) (fun key hkey => ?_)
    (fun key hkey _ => ?_) (fun new hnew fromKey toKey manifest' heq => ?_)⟩
  · rw [hgoes]
    exact ⟨i, rfl⟩
  · simp only [FinMap.get_erase, if_neg (Ne.symm hb), and_self]
  · rw [hgoes]
    simp [Agent.upload?]
  · simp at hu'
  · rw [ha] at hother
    cases hother
    cases hkey
  · have hne : manifest.key ≠ key := fun heq => hkey (by simp [Agent.holds, heq])
    simp only [FinMap.get_insert, if_neg hne, and_self]
  · obtain rfl : key = manifest.key := by simpa [Agent.holds] using hkey
    simp
  · rw [hgoes] at hnew
    cases hnew
    cases heq

/-- A rename puts its manifest: the object is still under the old key. -/
theorem moves {fromKey toKey : String} {manifest : MediaManifest}
    (ha : m.agents[a]? = some (.moving fromKey toKey manifest))
    (hgoes : m'.agents[a]? = some (.removingOld fromKey toKey manifest))
    (hholds : Holds X Set.univ m' (c.advance a (.moving fromKey toKey manifest)))
    (hothers : KeepsOthers a m m') :
    Tracks X m' (c.advance a (.moving fromKey toKey manifest)) mon := by
  obtain ⟨hne, -, hto, old, hfrom, -⟩ := h.holds.balanced.knows a _ ha
  obtain ⟨d, hd, -⟩ := h.holds.objects.some_left hfrom
  have hnone : mon.state.objects[toKey]? = none := by
    rw [← Option.not_isSome_iff_eq_none, h.locked_isSome ha _ (to_mem_locks _ _) (Agent.not_arriving rfl),
      FinMap.contains_iff, hto]
    simp
  have hc : c.advance a (.moving fromKey toKey manifest)
      = { c with objects := c.objects.insert toKey d } := by
    rw [Contents.advance, hd]
    rfl
  have hcall := h.calls a
  have huploads := h.uploads a
  rw [ha] at hcall huploads
  rw [hc] at hholds ⊢
  refine h.move (s := mon.state) ⟨rfl, (Function.update_eq_self a _).symm⟩ hholds hothers rfl ?_
    (fun b hb => ⟨rfl, rfl⟩) ?_ (h.bytes a) _ (h.holds.balanced.locked a _ ha)
    (fun other hother key hkey => ?_) (fun key hkey => ?_) (fun key hkey harriving => ?_)
    (fun new hnew from' to' manifest' heq => ?_)
  · rw [hgoes]
    exact hcall
  · rw [hgoes]
    exact huploads
  · rw [ha] at hother
    cases hother
    cases hkey
  · have hkey : toKey ≠ key := fun heq => hkey (heq ▸ to_mem_locks _ _)
    simp only [FinMap.get_insert, if_neg hkey, and_self]
  · have hkey' : toKey ≠ key := fun heq => harriving _ hgoes (congrArg some heq)
    rw [h.locked ha hkey (Agent.not_arriving rfl)]
    simp only [FinMap.get_insert, if_neg hkey']
  · rw [hgoes] at hnew
    cases hnew
    cases heq
    refine ⟨hnone, ?_⟩
    simp only [FinMap.get_insert, if_true, if_neg hne.symm, hd]

/-- A rename removes the manifest under the old key: it takes effect. -/
theorem renames {fromKey toKey : String} {manifest : MediaManifest}
    (ha : m.agents[a]? = some (.removingOld fromKey toKey manifest)) (hgone : m'.agents[a]? = none)
    (hholds : Holds X Set.univ m' (c.advance a (.removingOld fromKey toKey manifest)))
    (hothers : KeepsOthers a m m') :
    ∃ mon', Run Spec.object mon (returning a (.stored toKey)) mon' ∧
      Tracks X m' (c.advance a (.removingOld fromKey toKey manifest)) mon' := by
  obtain ⟨hvalid, hne, i, hcurrent⟩ : validateKey toKey = .ok () ∧ fromKey ≠ toKey ∧
      ∃ i, mon.current a = some (i, .rename fromKey toKey, none) := by
    have hcall := h.calls a
    rwa [ha] at hcall
  obtain ⟨-, -, old, hfrom, -⟩ := h.holds.balanced.knows a _ ha
  obtain ⟨d, hd, -⟩ := h.holds.objects.some_left hfrom
  obtain ⟨hto, hcopy⟩ := h.arriving a fromKey toKey manifest ha
  have hobject : mon.state.objects[fromKey]? = some d :=
    (h.locked ha (from_mem_locks _ _) fun heq => hne (Option.some.inj heq).symm).trans hd
  have hstep : mon.state.step (.rename fromKey toKey) = ({ mon.state with
      objects := (mon.state.objects.insert toKey d).erase fromKey }, .stored toKey) := by
    simp only [Spec.step, Spec.mayRename, hvalid, if_neg hne, hobject, hto, Option.isSome_none,
      Bool.false_eq_true, if_false]
  refine h.returns ha rfl hcurrent hstep rfl rfl rfl hholds hothers hgone (fun key hkey => ?_)
    fun key hkey => ?_
  · have hto : toKey ≠ key := fun heq => hkey (heq ▸ to_mem_locks _ _)
    have hfrom : fromKey ≠ key := fun heq => hkey (heq ▸ from_mem_locks _ _)
    simp only [Contents.advance, FinMap.get_erase, FinMap.get_insert, if_neg hto, if_neg hfrom, and_self]
  · rcases eq_of_mem_locks hkey with rfl | rfl
    · simp [Contents.advance]
    · simp [Contents.advance, hne, hcopy, hd]

/-- **An agent goes on**: the monitor accepts its marks. -/
theorem advance {agent : Agent} (ha : m.agents[a]? = some agent) :
    ∃ mon', Run Spec.object mon (agent.marks m.store a) mon' ∧
      Tracks X (m.advance X a agent) (c.advance a agent) mon' := by
  have hturns : Turns a agent m (m.advance X a agent) := advance_turns h.holds.balanced ha
  have hholds := h.holds.advance ha
  have hothers := advance_keepsOthers X m a agent
  have hcall := h.calls a
  rw [ha, Option.elim_some] at hcall
  -- where nothing takes effect
  have honto : agent.marks m.store a = [] → agent.Onto (m.advance X a agent).agents[a]? →
      c.advance a agent = c → agent.arriving? = none →
      ∃ mon', Run Spec.object mon (agent.marks m.store a) mon' ∧
        Tracks X (m.advance X a agent) (c.advance a agent) mon' := by
    intro hmarks hgoes hc harriving
    rw [hc] at hholds ⊢
    rw [hmarks]
    exact ⟨mon, .nil, h.onto ha hgoes hholds hothers harriving⟩
  cases agent with
  | writing session rest =>
    cases rest with
    | nil =>
      obtain ⟨i, data, hcurrent⟩ := hcall
      have hgoes : (m.advance X a (.writing session [])).agents[a]? = some (.idle session) := hturns
      refine h.responds ha hcurrent hholds hothers (by rw [hgoes]; rfl) (by rw [hgoes]; rfl) rfl
        fun new hnew => ?_
      rw [hgoes] at hnew
      cases hnew
      rfl
    | cons b rest => exact honto rfl hturns rfl rfl
  | putting session manifest previous =>
    obtain ⟨chunks, hgoes⟩ := hturns
    exact h.puts ha hgoes hholds hothers
  | moving fromKey toKey manifest => exact ⟨mon, .nil, h.moves ha hturns hholds hothers⟩
  | removingOld fromKey toKey manifest => exact h.renames ha hturns hholds hothers
  | releasing why chunks =>
    cases chunks with
    | cons chunk chunks => exact honto (by cases why <;> rfl) (by cases why <;> exact hturns) rfl rfl
    | nil =>
      cases why with
      | deleted key manifest => exact honto rfl hturns rfl rfl
      | replaced key =>
        obtain ⟨i, hcurrent⟩ := hcall
        have hgone : (m.advance X a (.releasing (.replaced key) [])).agents[a]? = none := hturns
        exact h.responds ha hcurrent hholds hothers (by rw [hgone]; rfl) (by rw [hgone]; rfl) rfl
          (by simp [hgone])
      | aborted =>
        obtain ⟨i, hcurrent⟩ := hcall
        have hgone : (m.advance X a (.releasing .aborted [])).agents[a]? = none := hturns
        exact h.responds ha hcurrent hholds hothers (by rw [hgone]; rfl) (by rw [hgone]; rfl) rfl
          (by simp [hgone])
  | unlinking why chunk chunks => exact honto rfl hturns rfl rfl
  | deleteLooking key =>
    have hobject := h.locked_isSome ha key (by simp [Agent.holds]) (Agent.not_arriving rfl)
    obtain ⟨i, hcurrent⟩ := hcall
    cases hfound : m.store.index.manifests.contains key with
    | true =>
      rw [Turns, Agent.Goes, hfound, if_pos rfl] at hturns
      exact honto (by rw [Agent.marks, hfound]; rfl) hturns rfl rfl
    | false =>
      rw [Turns, Agent.Goes, hfound, if_neg Bool.false_ne_true] at hturns
      rw [hfound] at hobject
      rw [Agent.marks, hfound, if_neg Bool.false_ne_true]
      refine h.returns_same ha rfl rfl hcurrent ?_ hholds hothers hturns
      have hnone := Option.not_isSome_iff_eq_none.1 (ne_true_of_eq_false hobject)
      simp only [Spec.step, FinMap.erase_of_none hnone, hobject]
  | removing key manifest =>
    have hobject := h.locked_isSome ha key (by simp [Agent.holds]) (Agent.not_arriving rfl)
    have hknows : m.store.index.manifests[key]? = some manifest := h.holds.balanced.knows a _ ha
    have hfound : m.store.index.manifests.contains key = true := by
      rw [FinMap.contains_iff, hknows]
      rfl
    obtain ⟨i, hcurrent⟩ := hcall
    have hstep : mon.state.step (.delete key)
        = ({ mon.state with objects := mon.state.objects.erase key }, .deleted true) := by
      simp only [Spec.step, hobject, hfound]
    refine h.returns ha rfl hcurrent hstep rfl rfl rfl hholds hothers hturns (fun k hk => ?_) fun k hk => ?_
    · have hne : key ≠ k := fun heq => hk (by simp [Agent.holds, heq])
      simp only [Contents.advance, FinMap.get_erase, if_neg hne, and_self]
    · obtain rfl : k = key := by simpa [Agent.holds] using hk
      simp [Contents.advance]
  | renameLooking fromKey toKey =>
    have hobject := h.locked_isSome ha _ (from_mem_locks fromKey toKey) (Agent.not_arriving rfl)
    obtain ⟨hvalid, hne, i, hcurrent⟩ := hcall
    cases hfound : m.store.index.manifests.contains fromKey with
    | true =>
      rw [Turns, Agent.Goes, hfound, if_pos rfl] at hturns
      exact honto (by rw [Agent.marks, hfound]; rfl) hturns rfl rfl
    | false =>
      rw [Turns, Agent.Goes, hfound, if_neg Bool.false_ne_true] at hturns
      rw [hfound] at hobject
      rw [Agent.marks, hfound, if_neg Bool.false_ne_true]
      refine h.returns_same ha rfl rfl hcurrent ?_ hholds hothers hturns
      have hnone := Option.not_isSome_iff_eq_none.1 (ne_true_of_eq_false hobject)
      simp only [Spec.step, Spec.mayRename, hvalid, if_neg hne, hnone]
  | renameChecking fromKey toKey manifest =>
    have hfrom := h.locked_isSome ha _ (from_mem_locks fromKey toKey) (Agent.not_arriving rfl)
    have hto := h.locked_isSome ha _ (to_mem_locks fromKey toKey) (Agent.not_arriving rfl)
    obtain ⟨-, hknows⟩ := h.holds.balanced.knows a _ ha
    obtain ⟨hvalid, hne, i, hcurrent⟩ := hcall
    cases hfound : m.store.index.manifests.contains toKey with
    | false =>
      rw [Turns, Agent.Goes, hfound, if_neg Bool.false_ne_true] at hturns
      exact honto (by rw [Agent.marks, hfound]; rfl) hturns rfl rfl
    | true =>
      rw [Turns, Agent.Goes, hfound, if_pos rfl] at hturns
      rw [hfound] at hto
      rw [Agent.marks, hfound, if_pos rfl]
      refine h.returns_same ha rfl rfl hcurrent ?_ hholds hothers hturns
      rw [(FinMap.contains_iff _ _).2 (by rw [hknows]; rfl)] at hfrom
      obtain ⟨d, hd⟩ := Option.isSome_iff_exists.1 hfrom
      simp only [Spec.step, Spec.mayRename, hvalid, if_neg hne, hd, hto, if_true]
  | _ => exact honto rfl hturns rfl rfl

/-- A number that is not in use. -/
theorem unused (ha : m.agents[a]? = none) : mon.current a = none ∧ mon.state.uploads[a]? = none := by
  have hcall := h.calls a
  have huploads := h.uploads a
  rw [ha] at hcall huploads
  exact ⟨hcall, Option.map_eq_none_iff.1 huploads⟩

/-- A session between two calls. -/
theorem idle {session : StoreSession} (ha : m.agents[a]? = some (.idle session)) :
    mon.current a = none ∧ ∃ u : Upload, mon.state.uploads[a]? = some u ∧ u.key = session.key ∧
      u.limit = session.maxObjectSize ∧ u.bytes.length = session.bytesWritten := by
  have hcall := h.calls a
  rw [ha] at hcall
  exact ⟨hcall, h.upload ha rfl⟩

/-- A call that is refused at once. -/
theorem refused (hfree : mon.current a = none) {call : Call} {answer : Answer}
    (hstep : mon.state.step call = (mon.state, answer)) :
    ∃ mon', Run Spec.object mon (.event (.invoke a call) :: returning a answer) mon' ∧
      Tracks X m c mon' := by
  obtain ⟨mon', hrun, hturns⟩ := exists_call Spec.object call hfree hstep
  have hsame : mon'.current = mon.current := by
    rw [hturns.current, ← hfree, Function.update_eq_self]
  refine ⟨mon', hrun, h.holds, ?_, ?_, ?_, ?_, ?_, ?_⟩
  · rw [hturns.state]
    exact h.engine
  · rw [hsame]
    exact h.calls
  · rw [hturns.state]
    exact h.uploads
  · rw [hturns.state]
    exact h.bytes
  · rw [hturns.state]
    exact h.objects
  · rw [hturns.state]
    exact h.arriving

/-- A call is made and goes on. -/
theorem starts (hfree : mon.current a = none) (call : Call) {new : Agent}
    (hnew : m'.agents[a]? = some new) (hcall : ∀ i, new.progress.Runs a (some (i, call, none)))
    (hupload : (m.agents[a]?).bind Agent.upload? = new.upload?)
    (hold : ∀ agent, m.agents[a]? = some agent → agent.arriving? = none) (harriving : new.arriving? = none)
    (hholds : Holds X Set.univ m' c) (hothers : KeepsOthers a m m') :
    ∃ mon', Run Spec.object mon [.event (.invoke a call)] mon' ∧ Tracks X m' c mon' := by
  obtain ⟨mon', i, hrun, hturns⟩ := exists_invoke Spec.object call hfree
  refine ⟨mon', hrun, h.quiet hturns hholds hothers rfl ?_ (fun b hb => ⟨rfl, rfl⟩) ?_ (h.bytes a) rfl rfl
    hold fun other hother => ?_⟩
  · rw [hnew]
    exact hcall i
  · rw [hnew, h.uploads a, hupload]
    rfl
  · rw [hnew] at hother
    cases hother
    exact harriving

theorem begin (key contentType : String) (metadata : List (String × String)) :
    ∃ mon', Run Spec.object mon (m.marks (.begin a key contentType metadata)) mon' ∧
      Tracks X (m.step X (.begin a key contentType metadata))
        (c.call m (.begin a key contentType metadata)) mon' := by
  have hholds : Holds X Set.univ (m.step X (.begin a key contentType metadata))
      (c.call m (.begin a key contentType metadata)) :=
    h.holds.step (.begin a key contentType metadata) fun _ _ => trivial
  by_cases ha : m.agents.contains a = true
  · simp only [Machine.step, marks, enter, Contents.call, if_pos ha]
    exact ⟨mon, .nil, h⟩
  have hnone : m.agents[a]? = none := by simpa using ha
  obtain ⟨hfree, hupload⟩ := h.unused hnone
  have hcontains : ¬ mon.state.uploads.contains a = true := by
    rw [FinMap.contains_iff, hupload]
    simp
  have hbegan := beginStore_eq m.engine key contentType metadata m.store
  rw [show c.call m (.begin a key contentType metadata)
    = { c with uploads := c.uploads.insert a [] } from if_neg ha] at hholds ⊢
  rw [marks, if_neg ha]
  cases hmay : Spec.mayBegin m.engine key with
  | error e =>
    rw [hmay] at hbegan
    have hrefused : m.step X (.begin a key contentType metadata) = m := by
      simp only [Machine.step, enter, if_neg ha, exec]
      rw [hbegan]
      rfl
    have hreply : m.began key contentType metadata = .failed e := by
      rw [began, hbegan]
      rfl
    have hstep : mon.state.step (.begin a key contentType metadata) = (mon.state, .failed e) := by
      simp only [Spec.step, if_neg hcontains, h.engine, hmay]
    rw [hrefused] at hholds ⊢
    rw [hreply]
    obtain ⟨mon', hrun, htracks⟩ := h.refused hfree hstep
    refine ⟨mon', hrun, hholds, htracks.engine, htracks.calls, htracks.uploads, fun b u hu => ?_,
      htracks.objects, htracks.arriving⟩
    have hb : a ≠ b := by
      rintro rfl
      rw [(htracks.unused hnone).2] at hu
      cases hu
    simp only [FinMap.get_insert, if_neg hb]
    exact htracks.bytes b u hu
  | ok _ =>
    rw [hmay] at hbegan
    have hopened : m.step X (.begin a key contentType metadata)
        = m.become a (.idle (m.engine.newSession key contentType metadata)) := by
      simp only [Machine.step, enter, if_neg ha, exec]
      rw [hbegan]
      rfl
    have hreply : m.began key contentType metadata = .done := by
      rw [began, hbegan]
      rfl
    have hstep : mon.state.step (.begin a key contentType metadata) = ({ mon.state with
        uploads := mon.state.uploads.insert a ⟨key, m.engine.maxObjectSize, []⟩ }, .done) := by
      simp only [Spec.step, if_neg hcontains, h.engine, hmay]
    rw [hopened] at hholds ⊢
    rw [hreply]
    obtain ⟨mon', hrun, hturns⟩ :=
      exists_call Spec.object (.begin a key contentType metadata) hfree hstep
    have hnew := become_get m a (.idle (m.engine.newSession key contentType metadata))
    refine ⟨mon', hrun, h.quiet hturns hholds (.become m m.store _) rfl ?_ (fun b hb => ?_) ?_
      (fun u hu => ?_) rfl rfl (by simp [hnone]) fun new hagent => ?_⟩
    · rw [hnew]
      rfl
    · simp only [FinMap.get_insert, if_neg (Ne.symm hb), and_self]
    · rw [hnew]
      simp [Upload.measure, Agent.upload?, StorageEngine.newSession, StoreSession.bytesWritten]
    · simp only [FinMap.get_insert, if_true, Option.some.injEq] at hu ⊢
      rw [← hu]
    · cases hnew.symm.trans hagent
      rfl

theorem write (data : Bytes) :
    ∃ mon', Run Spec.object mon (m.marks (.write a data)) mon' ∧
      Tracks X (m.step X (.write a data)) (c.call m (.write a data)) mon' := by
  have hholds : Holds X Set.univ (m.step X (.write a data)) (c.call m (.write a data)) :=
    h.holds.step (.write a data) fun _ _ => trivial
  cases ha : m.agents[a]? with
  | none =>
    simp only [Machine.step, marks, onIdle, Contents.call, ha]
    exact ⟨mon, .nil, h⟩
  | some agent =>
    cases agent with
    | idle session =>
      obtain ⟨hfree, u, hu, hkey, hlimit, hcount⟩ := h.idle ha
      by_cases hbig : session.maxObjectSize ≠ 0 ∧
          session.maxObjectSize < session.bytesWritten + data.length
      · simp only [Machine.step, marks, onIdle, Contents.call, ha, if_pos hbig]
        refine h.refused hfree ?_
        simp only [Spec.step, hu, Spec.mayWrite, hlimit, hcount, if_pos hbig]
      · have hc : c.call m (.write a data)
            = { c with uploads := c.uploads.insert a (u.bytes ++ data) } := by
          simp only [Contents.call, ha, if_neg hbig, h.bytes a u hu, Option.getD_some]
        have hstep : mon.state.step (.write a data) = ({ mon.state with
            uploads := mon.state.uploads.insert a { u with bytes := u.bytes ++ data } }, .done) := by
          simp only [Spec.step, hu, Spec.mayWrite, hlimit, hcount, if_neg hbig]
        rw [hc] at hholds ⊢
        simp only [Machine.step, marks, onIdle, ha, if_neg hbig] at hholds ⊢
        obtain ⟨mon', i, hrun, hturns⟩ :=
          exists_invoke_effect Spec.object (.write a data) hfree hstep
        have hnew := become_get m a (.writing session data)
        refine ⟨mon', hrun, h.quiet hturns hholds (.become m m.store _) rfl
          ?_ (fun b hb => ?_) ?_ (fun u' hu' => ?_) rfl rfl (fun old hold => ?_) fun new hagent => ?_⟩
        · rw [hnew]
          exact ⟨i, data, rfl⟩
        · simp only [FinMap.get_insert, if_neg (Ne.symm hb), and_self]
        · rw [hnew]
          simp only [FinMap.get_insert, if_true, Option.map_some, Option.bind_some, Agent.upload?,
            Upload.measure, List.length_append, hkey, hcount, hlimit]
        · simp only [FinMap.get_insert, if_true, Option.some.injEq] at hu' ⊢
          rw [← hu']
        · rw [ha] at hold
          cases hold
          rfl
        · cases hnew.symm.trans hagent
          rfl
    | _ =>
      simp only [Machine.step, marks, onIdle, Contents.call, ha]
      exact ⟨mon, .nil, h⟩

theorem finish :
    ∃ mon', Run Spec.object mon (m.marks (.finish a)) mon' ∧
      Tracks X (m.step X (.finish a)) c mon' := by
  have hholds : Holds X Set.univ (m.step X (.finish a)) c :=
    h.holds.step (.finish a) fun _ _ => trivial
  cases ha : m.agents[a]? with
  | none =>
    simp only [Machine.step, marks, onIdle, ha]
    exact ⟨mon, .nil, h⟩
  | some agent =>
    cases agent with
    | idle session =>
      simp only [Machine.step, marks, onIdle, ha] at hholds ⊢
      obtain ⟨new, hnew, hphase, hupload, harriving⟩ : (Agent.committing session).Onto
          (m.flush a session .commit).agents[a]? := .flush rfl rfl m
      refine h.starts (h.idle ha).1 (.finish a) hnew (fun i => ?_) ?_ (fun agent hagent => ?_) harriving
        hholds (.flush m session .commit)
      · rw [hphase]
        exact ⟨i, rfl⟩
      · rw [hupload, ha]
        rfl
      · rw [ha] at hagent
        cases hagent
        rfl
    | _ =>
      simp only [Machine.step, marks, onIdle, ha]
      exact ⟨mon, .nil, h⟩

theorem abort :
    ∃ mon', Run Spec.object mon (m.marks (.abort a)) mon' ∧
      Tracks X (m.step X (.abort a)) c mon' := by
  have hholds : Holds X Set.univ (m.step X (.abort a)) c :=
    h.holds.step (.abort a) fun _ _ => trivial
  cases ha : m.agents[a]? with
  | none =>
    simp only [Machine.step, marks, onIdle, ha]
    exact ⟨mon, .nil, h⟩
  | some agent =>
    cases agent with
    | idle session =>
      obtain ⟨hfree, u, hu, -⟩ := h.idle ha
      have hcontains : mon.state.uploads.contains a = true := by
        rw [FinMap.contains_iff, hu]
        rfl
      have hstep : mon.state.step (.abort a)
          = ({ mon.state with uploads := mon.state.uploads.erase a }, .done) := by
        simp only [Spec.step, if_pos hcontains]
      simp only [Machine.step, marks, onIdle, ha] at hholds ⊢
      obtain ⟨mon', i, hrun, hturns⟩ := exists_invoke_effect Spec.object (.abort a) hfree hstep
      have hnew := become_get m a (.releasing .aborted session.referencedChunks)
      refine ⟨mon', hrun, h.quiet hturns hholds (.become m m.store _) rfl
        ?_ (fun b hb => ?_) ?_ (fun u' hu' => ?_) rfl rfl (fun old hold => ?_) fun new hagent => ?_⟩
      · rw [hnew]
        exact ⟨i, rfl⟩
      · simp only [FinMap.get_erase, if_neg (Ne.symm hb), and_self]
      · rw [hnew]
        simp [Agent.upload?]
      · simp at hu'
      · rw [ha] at hold
        cases hold
        rfl
      · cases hnew.symm.trans hagent
        rfl
    | _ =>
      simp only [Machine.step, marks, onIdle, ha]
      exact ⟨mon, .nil, h⟩

theorem delete (key : String) :
    ∃ mon', Run Spec.object mon (m.marks (.delete a key)) mon' ∧
      Tracks X (m.step X (.delete a key)) c mon' := by
  have hholds : Holds X Set.univ (m.step X (.delete a key)) c :=
    h.holds.step (.delete a key) fun _ _ => trivial
  by_cases ha : m.agents.contains a = true
  · simp only [Machine.step, marks, enter, if_pos ha]
    exact ⟨mon, .nil, h⟩
  · simp only [Machine.step, marks, enter, if_neg ha] at hholds ⊢
    have hnone : m.agents[a]? = none := by simpa using ha
    exact h.starts (h.unused hnone).1 (.delete key) (become_get m a _) (fun i => ⟨i, rfl⟩)
      (by rw [hnone]; rfl) (by simp [hnone]) rfl hholds (.become m m.store _)

theorem rename (fromKey toKey : String) :
    ∃ mon', Run Spec.object mon (m.marks (.rename a fromKey toKey)) mon' ∧
      Tracks X (m.step X (.rename a fromKey toKey)) c mon' := by
  have hholds : Holds X Set.univ (m.step X (.rename a fromKey toKey)) c :=
    h.holds.step (.rename a fromKey toKey) fun _ _ => trivial
  by_cases ha : m.agents.contains a = true
  · simp only [Machine.step, marks, enter, if_pos ha]
    exact ⟨mon, .nil, h⟩
  have hnone : m.agents[a]? = none := by simpa using ha
  obtain ⟨hfree, -⟩ := h.unused hnone
  rw [marks, if_neg ha]
  cases hvalid : validateKey toKey with
  | error e =>
    have hrefused : m.step X (.rename a fromKey toKey) = m := by
      simp only [Machine.step, enter, if_neg ha, exec, hvalid]
      rfl
    rw [hrefused]
    refine h.refused hfree ?_
    simp only [Spec.step, Spec.mayRename, hvalid]
  | ok _ =>
    have hstep : m.step X (.rename a fromKey toKey)
        = if fromKey = toKey then m else m.become a (.renameLocking fromKey toKey) := by
      simp only [Machine.step, enter, if_neg ha, exec, hvalid]
      rfl
    rw [hstep] at hholds ⊢
    by_cases hsame : fromKey = toKey
    · simp only [if_pos hsame]
      refine h.refused hfree ?_
      simp only [Spec.step, Spec.mayRename, hvalid, if_pos hsame]
    · simp only [if_neg hsame] at hholds ⊢
      exact h.starts hfree (.rename fromKey toKey) (become_get m a _) (fun i => ⟨hvalid, hsame, i, rfl⟩)
        (by rw [hnone]; rfl) (by simp [hnone]) rfl hholds (.become m m.store _)

/-- **Every action is one of the history that the monitor accepts.** -/
theorem step (action : Action) :
    ∃ mon', Run Spec.object mon (m.marks action) mon' ∧
      Tracks X (m.step X action) (c.call m action) mon' := by
  cases action with
  | begin a key contentType metadata => exact h.begin key contentType metadata
  | write a data => exact h.write data
  | finish a => exact h.finish
  | abort a => exact h.abort
  | delete a key => exact h.delete key
  | rename a fromKey toKey => exact h.rename fromKey toKey
  | advance a =>
    cases ha : m.agents[a]? with
    | none =>
      simp only [Machine.step, marks, Contents.call, ha]
      exact ⟨mon, .nil, h⟩
    | some agent =>
      simp only [Machine.step, marks, Contents.call, ha]
      obtain ⟨mon', hrun, htracks⟩ := h.advance ha
      exact ⟨mon', hrun, htracks⟩
  | tick now =>
    have hholds := h.holds.step (.tick now) fun _ _ => trivial
    exact ⟨mon, .nil, hholds, h.engine, h.calls, h.uploads, h.bytes, h.objects, h.arriving⟩

end Tracks

theorem Tracks.run : ∀ (actions : List Action) {m : Machine} {c : Contents}
    {mon : Monitor Spec Nat Call Answer}, Tracks X m c mon →
    ∃ c' mon', Run Spec.object mon (m.trace X actions) mon' ∧
      Tracks X (m.run X actions) c' mon'
  | [], _, _, _, h => ⟨_, _, .nil, h⟩
  | action :: actions, _, _, _, h => by
    obtain ⟨mon1, hrun, htracks⟩ := h.step action
    obtain ⟨c', mon2, hrun', htracks'⟩ := run actions htracks
    exact ⟨c', mon2, hrun.append hrun', htracks'⟩

theorem Tracks.start (engine : StorageEngine) (dataDir : String) :
    Tracks X (Machine.start engine dataDir) .empty (.start (Spec.fresh engine)) where
  holds := .start engine dataDir
  engine := rfl
  calls a := by simp [Machine.start, Monitor.start, Progress.Runs]
  uploads a := by simp [Machine.start, Monitor.start, Spec.fresh]
  bytes a u hu := by simp [Monitor.start, Spec.fresh] at hu
  objects key _ := by simp [Monitor.start, Spec.fresh, Contents.empty]
  arriving a fromKey toKey manifest ha := by simp [Machine.start] at ha

/-- What is visible when no call is in progress. -/
theorem Tracks.visible {c : Contents} {mon : Monitor Spec Nat Call Answer}
    (h : Tracks X m c mon) (hquiet : m.Quiet) :
    FinMap.Rels (fun manifest d => Spells X Set.univ manifest.chunks d) m.store.index.manifests
      mon.state.objects := by
  intro key
  rw [h.objects key]
  · exact h.holds.objects key
  · rintro ⟨a, agent, ha, harriving⟩
    obtain ⟨session, rfl⟩ := hquiet a agent ha
    cases harriving

end Machine

end KaidaDB
