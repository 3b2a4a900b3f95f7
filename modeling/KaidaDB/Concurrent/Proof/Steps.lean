import KaidaDB.Concurrent.Deed
import KaidaDB.Concurrent.Proof.RefCounts

/-!
# Every action has the effects of its deed

`step_effect`: from a store that works an action changes index and files as its deed says, the clock
only if it is a `tick`, and lets an agent hold a chunk file without a reference only by finding it or
putting it in place.
-/

namespace KaidaDB

open Std Effects

variable {X : Crates}

theorem Machine.inFlight_iff {m : Machine} {id : ChunkId} : m.InFlight X id ↔
    ∃ (a : Nat) (agent : Agent), m.agents[a]? = some agent ∧ agent.holding? X = some id :=
  FinMap.exists_mem_toList (p := fun agent => Agent.holding? X agent = some id)

/-- From `m` to `m'` a deed was done and nothing else. -/
structure Machine.Effect (X : Crates) (m m' : Machine) (deed : Deed) : Prop where
  attached : m'.store.attached = true
  calm : m'.store.view.Calm
  index : m'.store.index = deed.index m.store.index
  files : m'.store.files = deed.files X m.store
  inFlight : ∀ id, m'.InFlight X id →
    m.InFlight X id ∨ deed = .found id ∨ ∃ data, deed = .created id data

namespace Machine

variable {m : Machine} {a : Nat} {s : Store} {deed : Deed}

/-- The agent goes on, and holds a file only if the deed gives it one. -/
theorem Effect.become {new : Agent} (hs : s.attached = true) (hcalm : s.view.Calm)
    (hidx : s.index = deed.index m.store.index) (hfiles : s.files = deed.files X m.store)
    (hnew : ∀ id, new.holding? X = some id → deed = .found id ∨ ∃ data, deed = .created id data) :
    Effect X m (({ m with store := s } : Machine).become a new) deed where
  attached := hs
  calm := hcalm
  index := hidx
  files := hfiles
  inFlight := by
    intro id hin
    obtain ⟨b, agent, hb, hid⟩ := inFlight_iff.1 hin
    by_cases hba : b = a
    · subst hba
      rw [become_get] at hb
      cases hb
      exact .inr (hnew id hid)
    · rw [become_get_ne _ _ hba] at hb
      exact .inl (inFlight_iff.2 ⟨b, agent, hb, hid⟩)

theorem Effect.leave (hs : s.attached = true) (hcalm : s.view.Calm)
    (hidx : s.index = deed.index m.store.index) (hfiles : s.files = deed.files X m.store)
    (old : Agent) : Effect X m (({ m with store := s } : Machine).leave a old) deed where
  attached := hs
  calm := hcalm
  index := hidx
  files := hfiles
  inFlight := by
    intro id hin
    obtain ⟨b, agent, hb, hid⟩ := inFlight_iff.1 hin
    simp only [Machine.leave, FinMap.get_erase] at hb
    split_ifs at hb
    exact .inl (inFlight_iff.2 ⟨b, agent, hb, hid⟩)

theorem Effect.exec {α : Type} {x : M α} {v : α} {c' : View} {ok : Machine → α → Machine}
    {failed : Machine → Machine} (hm : m.store.attached = true)
    (hx : Does (lens X false) x m.store.view (.ok v) c')
    (h : ∀ s : Store, s.attached = true → s.view = c' →
      Effect X m (ok { m with store := s } v) deed) : Effect X m (m.exec x ok failed) deed :=
  exec_of_does (P := fun m' => Effect X m m' deed) hm hx h

/-- Nothing was done. -/
theorem Effect.refl (hm : m.store.attached = true) (hcalm : m.store.view.Calm) :
    Effect X m m .nothing := ⟨hm, hcalm, rfl, rfl, fun _ h => .inl h⟩

theorem index_dropped (i : IndexState) (id : ChunkId) : (Deed.dropped id).index i = i.dropRef id := by
  simp only [Deed.index, Deed.appended?, IndexState.dropRef]
  cases droppedRef i id <;> rfl

section
variable (hm : m.store.attached = true) (hcalm : m.store.view.Calm)
include hm hcalm

/-- A read, after which the agent goes on without a file or leaves. -/
theorem Effect.ofRead {α : Type} {x : M α} {v : α} {ok : Machine → α → Machine}
    {failed : Machine → Machine} (hx : Does (lens X false) x m.store.view (.ok v) m.store.view)
    (hok : ∀ s : Store, (∃ new : Agent,
        ok { m with store := s } v = ({ m with store := s } : Machine).become a new ∧
        new.holding? X = none) ∨
      (∃ old : Agent, ok { m with store := s } v = ({ m with store := s } : Machine).leave a old)) :
    Effect X m (m.exec x ok failed) .nothing := by
  refine .exec hm hx fun s hs hv => ?_
  obtain ⟨new, h, hnew⟩ | ⟨old, h⟩ := hok s
  · rw [h]
    exact .become hs (hv ▸ hcalm) (congrArg View.index hv) (congrArg View.files hv)
      fun id hid => by rw [hnew] at hid; cases hid
  · rw [h]
    refine Effect.leave (m := m) hs (hv ▸ hcalm) ?_ ?_ old
    · exact congrArg View.index hv
    · exact congrArg View.files hv

/-- The agent goes on without an access to the store. -/
theorem Effect.go {new : Agent} (hnew : new.holding? X = none) :
    Effect X m (m.become a new) .nothing :=
  .become hm hcalm rfl rfl fun id hid => by rw [hnew] at hid; cases hid

theorem Effect.lock {new : Agent} (key : String) (hnew : new.holding? X = none) :
    Effect X m (m.lock a key new) .nothing := by
  unfold Machine.lock
  split_ifs
  · exact .refl hm hcalm
  · obtain ⟨h1, h2, h3, h4, h5⟩ := Effect.go (a := a) hm hcalm hnew
    exact ⟨h1, h2, h3, h4, h5⟩

theorem Effect.flush (session : StoreSession) (next : Next) :
    Effect X m (m.flush a session next) .nothing := by
  unfold Machine.flush Machine.resume
  split_ifs
  · cases next with
    | loop rest => exact .go hm hcalm rfl
    | commit => exact .go hm hcalm rfl
  · exact .go hm hcalm rfl

theorem advance_effect (agent : Agent) :
    Effect X m (m.advance X a agent) (agent.deed X m.store) := by
  cases agent with
  | idle session => exact .refl hm hcalm
  | writing session rest =>
    simp only [advance]
    split_ifs
    · exact .go hm hcalm rfl
    · exact .flush hm hcalm _ _
    · exact .go hm hcalm rfl
  | checking session chunk next =>
    rw [advance, Agent.deed]
    refine .exec hm (does_chunkExists (X := X)) fun s hs hv => ?_
    have hcalm : s.view.Calm := hv ▸ hcalm
    rw [show m.store.view.files = m.store.files from rfl]
    split_ifs
    · exact .become hs hcalm (congrArg View.index hv) (congrArg View.files hv)
        fun id hid => .inl (congrArg Deed.found (Option.some.inj hid))
    · exact .become hs hcalm (congrArg View.index hv) (congrArg View.files hv)
        fun _ hid => by cases hid
  | creating session chunk next =>
    rw [advance]
    refine .exec hm (does_createChunk hcalm.write) fun s hs hv => ?_
    exact .become hs (hv ▸ hcalm.tail.trans hcalm) (congrArg View.index hv) (congrArg View.files hv)
      fun id hid => .inr ⟨chunk, congrArg (fun i => Deed.created i chunk) (Option.some.inj hid)⟩
  | referencing session chunk next =>
    rw [advance]
    refine .exec hm (does_addChunkRef (hcalm.appends false)) fun s hs hv => ?_
    unfold Machine.resume
    cases next with
    | loop rest =>
      exact .become hs (hv ▸ hcalm.applied _) (congrArg View.index hv) (congrArg View.files hv)
        fun _ hid => by cases hid
    | commit =>
      exact .become hs (hv ▸ hcalm.applied _) (congrArg View.index hv) (congrArg View.files hv)
        fun _ hid => by cases hid
  | committing session =>
    rw [advance]
    exact .ofRead hm hcalm does_nowSecs fun s => .inl ⟨_, rfl, rfl⟩
  | locking session manifest => exact .lock hm hcalm _ rfl
  | looking session manifest =>
    rw [advance]
    exact .ofRead hm hcalm does_getManifest fun s => .inl ⟨_, rfl, rfl⟩
  | putting session manifest previous =>
    rw [advance]
    refine .exec hm (does_putManifest (hcalm.appends true) hcalm.compact) fun s hs hv => ?_
    exact .become hs (hv ▸ hcalm.applied _) (congrArg View.index hv) (congrArg View.files hv)
      fun _ hid => by cases hid
  | releasing why chunks =>
    cases chunks with
    | nil =>
      cases why with
      | deleted key manifest => exact .go hm hcalm rfl
      | replaced key => exact Effect.leave (m := m) hm hcalm rfl rfl _
      | aborted => exact Effect.leave (m := m) hm hcalm rfl rfl _
    | cons chunk chunks =>
      rw [advance]
      refine .exec hm (does_decrement hcalm chunk) fun s hs hv => ?_
      have hidx : s.index = (Deed.dropped chunk).index m.store.index :=
        (congrArg View.index hv).trans (index_dropped _ _).symm
      have hcalm : s.view.Calm := by rw [hv]; exact hcalm
      split_ifs
      · exact .become hs hcalm hidx (congrArg View.files hv) fun _ hid => by cases hid
      · exact .become hs hcalm hidx (congrArg View.files hv) fun _ hid => by cases hid
  | unlinking why chunk chunks =>
    rw [advance]
    refine .exec hm (does_deleteChunk (X := X) hcalm.remove) fun s hs hv => ?_
    have hfiles : s.files = m.store.files.erase chunk.toHex := by
      rw [show s.files = s.view.files from rfl, hv]
      refine FinMap.ext_get fun hex => ?_
      rw [unlinked_files, FinMap.get_erase]
      rfl
    have hcalm : s.view.Calm := by
      rw [hv, View.unlinked]
      split_ifs
      · exact hcalm.tail.trans hcalm
      · exact hcalm
    exact .become hs hcalm ((congrArg View.index hv).trans (unlinked_index _ _)) hfiles
      fun _ hid => by cases hid
  | deleting key => exact .lock hm hcalm _ rfl
  | deleteLooking key =>
    rw [advance]
    refine .ofRead (a := a) hm hcalm does_getManifest fun s => ?_
    cases m.store.view.index.manifests[key]? with
    | none => exact .inr ⟨_, rfl⟩
    | some manifest => exact .inl ⟨_, rfl, rfl⟩
  | removing key manifest =>
    rw [advance]
    refine .exec hm (does_deleteManifest (hcalm.appends true) hcalm.compact)
      fun s hs hv => ?_
    refine Effect.leave (m := m) hs (hv ▸ hcalm.applied _) ?_ ?_ _
    · exact congrArg View.index hv
    · exact congrArg View.files hv
  | renameLocking fromKey toKey => exact .lock hm hcalm _ rfl
  | renamingLocked fromKey toKey => exact .lock hm hcalm _ rfl
  | renameLooking fromKey toKey =>
    rw [advance]
    refine .ofRead (a := a) hm hcalm does_getManifest fun s => ?_
    cases m.store.view.index.manifests[fromKey]? with
    | none => exact .inr ⟨_, rfl⟩
    | some manifest => exact .inl ⟨_, rfl, rfl⟩
  | renameChecking fromKey toKey manifest =>
    have hx : Does (lens X false) (do return (← Index.getManifest toKey, ← nowSecs) : M _)
        m.store.view _ _ := Does.bind does_getManifest (Does.bind does_nowSecs (Does.pure _))
    rw [advance]
    refine .ofRead (a := a) hm hcalm hx fun s => ?_
    cases m.store.view.index.manifests[toKey]? with
    | some _ => exact .inr ⟨_, rfl⟩
    | none => exact .inl ⟨_, rfl, rfl⟩
  | moving fromKey toKey manifest =>
    rw [advance]
    refine .exec hm (does_putManifest (hcalm.appends true) hcalm.compact) fun s hs hv => ?_
    exact .become hs (hv ▸ hcalm.applied _) (congrArg View.index hv) (congrArg View.files hv)
      fun _ hid => by cases hid
  | removingOld fromKey toKey manifest =>
    rw [advance]
    refine .exec hm (does_deleteManifest (hcalm.appends true) hcalm.compact)
      fun s hs hv => ?_
    refine Effect.leave (m := m) hs (hv ▸ hcalm.applied _) ?_ ?_ _
    · exact congrArg View.index hv
    · exact congrArg View.files hv

/-- **What an action does.** -/
theorem step_effect (action : Action) : Effect X m (m.step X action) (m.deed X action) := by
  have hidle : ∀ {a : Nat} {call : StoreSession → Machine},
      (∀ session, Effect X m (call session) .nothing) → Effect X m (m.onIdle a call) .nothing := by
    intro a call hcall
    unfold Machine.onIdle
    split
    · exact hcall _
    · exact .refl hm hcalm
  have henter : ∀ {a : Nat} {call : Machine},
      Effect X m call .nothing → Effect X m (m.enter a call) .nothing := by
    intro a call hcall
    unfold Machine.enter
    split_ifs
    · exact .refl hm hcalm
    · exact hcall
  cases action with
  | begin a key contentType metadata =>
    refine henter ?_
    unfold Machine.exec StorageEngine.beginStore
    cases validateKey key with
    | error e => exact .refl hm hcalm
    | ok u =>
      by_cases hbig : isizeMax < m.engine.chunkSize
      · rw [if_pos hbig]
        exact .refl hm hcalm
      · rw [if_neg hbig]
        exact .go hm hcalm rfl
  | write a data =>
    refine hidle fun session => ?_
    split_ifs
    · exact .refl hm hcalm
    · exact .go hm hcalm rfl
  | finish a => exact hidle fun session => .flush hm hcalm _ _
  | abort a => exact hidle fun session => .go hm hcalm rfl
  | delete a key => exact henter (.go hm hcalm rfl)
  | rename a fromKey toKey =>
    refine henter ?_
    unfold Machine.exec
    cases validateKey toKey with
    | error e => exact .refl hm hcalm
    | ok u =>
      show Effect X m (if fromKey = toKey then m else m.become a _) .nothing
      split_ifs
      · exact .refl hm hcalm
      · exact .go hm hcalm rfl
  | advance a =>
    simp only [step, deed]
    cases m.agents[a]? with
    | none => exact .refl hm hcalm
    | some agent => exact advance_effect hm hcalm agent
  | tick now => exact ⟨hm, hcalm, rfl, rfl, fun _ h => .inl h⟩

end

end Machine

end KaidaDB
