import KaidaDB.Concurrent.Proof.Accounts

/-!
# Reference counts are exact whatever the interleaving

Every action keeps `Machine.Balanced` (`Balanced.step`): agents that read or only touch files keep
their balance (`Balanced.stay`, `Balanced.leave`), one that takes or drops a reference changes count
and balance alike (`Balanced.add`, `Balanced.drop`), and one that puts or removes a manifest does so
under the lock of its key (`Balanced.put`, `Balanced.remove`). So it holds after every run
(`refCounts_exact`).
-/

namespace KaidaDB

open Std Effects

variable {X : Crates}

namespace Machine

/-! ## One access to the store -/

/-- An operation that succeeds: what follows may use any store with the view it ends in. -/
theorem exec_of_does {m : Machine} {P : Machine → Prop} {α : Type} {x : M α} {v : α} {c' : View}
    (hm : m.store.attached = true) (hx : Does (lens X false) x m.store.view (.ok v) c')
    {ok : Machine → α → Machine} {failed : Machine → Machine}
    (h : ∀ s : Store, s.attached = true → s.view = c' → P (ok { m with store := s } v)) :
    P (m.exec x ok failed) := by
  obtain ⟨s, h1, h2, h3⟩ := hx m.store ⟨hm, fun h => by cases h⟩ rfl
  rw [exec, h1]
  exact h s h2.1 h3

theorem become_get (m : Machine) (a : Nat) (agent : Agent) :
    (m.become a agent).agents[a]? = some agent := by
  simp [become]

/-- A call that ends leaves the locks of others alone. -/
theorem leave_locks {m : Machine} {a b : Nat} {agent : Agent}
    (hheld : ∀ k ∈ agent.holds, m.locks[k]? = some a) {k : String} (hb : b ≠ a)
    (hk : m.locks[k]? = some b) : (m.leave a agent).locks[k]? = some b := by
  show (agent.holds.foldl (fun locks key => locks.erase key) m.locks)[k]? = some b
  rw [FinMap.get_foldl_erase, if_neg, hk]
  intro hmem
  rw [hheld k hmem] at hk
  exact hb (Option.some.inj hk).symm

theorem become_get_ne (m : Machine) {a b : Nat} (agent : Agent) (h : b ≠ a) :
    (m.become a agent).agents[b]? = m.agents[b]? := by
  simp [become, Ne.symm h]

namespace Balanced

variable {m : Machine} {a : Nat} {old new : Agent} {s : Store}

section
variable (h : m.Balanced) (ha : m.agents[a]? = some old) (hs : s.attached = true)
  (hcalm : s.view.Calm)
include h ha hs hcalm

/-- The agent goes on and holds no further lock. -/
theorem became (hkeyed : s.index.Keyed) (hcounted : s.index.Counted)
    (hheld : ∀ k ∈ new.holds, k ∈ old.holds)
    (hframe : ∀ (k : String) (b : Nat), b ≠ a → m.locks[k]? = some b →
      s.index.manifests[k]? = m.store.index.manifests[k]?)
    (hknows : new.Knows s.index.manifests)
    (hbal : ∀ id, (s.index.refCount id : Int) - m.store.index.refCount id
      = s.index.occurrences id - m.store.index.occurrences id + new.balance id - old.balance id) :
    (({ m with store := s } : Machine).become a new).Balanced := by
  refine h.move a (some old) (some new) ha (become_get _ a new)
    (fun b hb => become_get_ne _ new hb) hs hcalm hkeyed hcounted (fun k b _ hk => hk)
    (fun agent hagent k hk => ?_) hframe (fun agent hagent => ?_) hbal
  · cases hagent
    exact h.locked a old ha k (hheld k hk)
  · cases hagent
    exact hknows

/-- The call ends. -/
theorem ended (hkeyed : s.index.Keyed) (hcounted : s.index.Counted)
    (hframe : ∀ (k : String) (b : Nat), b ≠ a → m.locks[k]? = some b →
      s.index.manifests[k]? = m.store.index.manifests[k]?)
    (hbal : ∀ id, (s.index.refCount id : Int) - m.store.index.refCount id
      = s.index.occurrences id - m.store.index.occurrences id - old.balance id) :
    (({ m with store := s } : Machine).leave a old).Balanced := by
  refine h.move a (some old) none ha (by simp [Machine.leave])
    (fun b hb => by simp [Machine.leave, Ne.symm hb]) hs hcalm hkeyed hcounted
    (fun k b hb hk => leave_locks (m := { m with store := s }) (h.locked a old ha) hb hk)
    (fun agent hagent => by cases hagent) hframe (fun agent hagent => by cases hagent) fun id => ?_
  have hid := hbal id
  simp only [Machine.leave, Option.elim_some, Option.elim_none]
  omega

/-! ## Moves that keep the index -/

theorem stay (hidx : s.index = m.store.index) (hheld : ∀ k ∈ new.holds, k ∈ old.holds)
    (hknows : new.Knows m.store.index.manifests) (hbal : ∀ id, new.balance id = old.balance id) :
    (({ m with store := s } : Machine).become a new).Balanced := by
  refine h.became ha hs hcalm (hidx ▸ h.keyed) (hidx ▸ h.counted) hheld (fun k b _ _ => ?_)
    (hidx ▸ hknows) fun id => ?_
  · rw [hidx]
  · rw [hidx, hbal]
    omega

theorem leave (hidx : s.index = m.store.index) (hbal : ∀ id, old.balance id = 0) :
    (({ m with store := s } : Machine).leave a old).Balanced := by
  refine h.ended ha hs hcalm (hidx ▸ h.keyed) (hidx ▸ h.counted) (fun k b _ _ => ?_) fun id => ?_
  · rw [hidx]
  · rw [hidx, hbal]
    omega

end

/-- The agent goes on without an access to the store. -/
theorem go (h : m.Balanced) (ha : m.agents[a]? = some old)
    (hheld : ∀ k ∈ new.holds, k ∈ old.holds) (hknows : new.Knows m.store.index.manifests)
    (hbal : ∀ id, new.balance id = old.balance id) : (m.become a new).Balanced :=
  h.stay ha h.attached h.calm rfl hheld hknows hbal

/-- The agent takes a lock, or waits. -/
theorem lock (h : m.Balanced) (ha : m.agents[a]? = some old) {key : String}
    (hheld : ∀ k ∈ new.holds, k ∈ old.holds ∨ k = key)
    (hknows : new.Knows m.store.index.manifests) (hbal : ∀ id, new.balance id = old.balance id) :
    (m.lock a key new).Balanced := by
  unfold Machine.lock
  split_ifs with hk
  · exact h
  · have hnone : m.locks[key]? = none := by simpa using hk
    refine h.move a (some old) (some new) ha (by simp)
      (fun b hb => by simp [Ne.symm hb]) h.attached h.calm h.keyed h.counted
      (fun k b _ hkb => ?_) (fun agent hagent k hk => ?_) (fun _ _ _ _ => rfl)
      (fun agent hagent => ?_) fun id => ?_
    · rw [FinMap.get_insert, if_neg, hkb]
      rintro rfl
      rw [hnone] at hkb
      cases hkb
    · cases hagent
      rw [FinMap.get_insert]
      split_ifs with hkey
      · rfl
      · exact h.locked a old ha k ((hheld k hk).resolve_right (Ne.symm hkey))
    · cases hagent
      exact hknows
    · simp only [Option.elim_some, hbal]
      omega

/-! ## References -/

/-- The agent takes a reference. -/
theorem add (h : m.Balanced) (ha : m.agents[a]? = some old) (hs : s.attached = true)
    (hcalm : s.view.Calm) {chunk : ChunkId} {path : String}
    (hidx : s.index = applyEntry m.store.index
      (.putChunkLocation chunk.toHex (addedRef m.store.index chunk path)))
    (hheld : new.holds = []) (hknows : ∀ t, new.Knows t)
    (hbal : ∀ id, new.balance id = old.balance id + if chunk = id then 1 else 0) :
    (({ m with store := s } : Machine).become a new).Balanced := by
  have hman : s.index.manifests = m.store.index.manifests := by rw [hidx]; rfl
  refine h.became ha hs hcalm (hidx ▸ applyEntry_keyed h.keyed _)
    (hidx ▸ addedRef_counted h.counted chunk path) (fun k hk => ?_) (fun k b _ _ => ?_) (hknows _)
    fun id => ?_
  · rw [hheld] at hk
    cases hk
  · rw [hman]
  · have hocc : s.index.occurrences id = m.store.index.occurrences id :=
      congrArg (FinMap.total fun m : MediaManifest => m.chunks.count id) hman
    have href : s.index.refCount id
        = m.store.index.refCount id + if chunk = id then 1 else 0 := by
      rw [hidx, refCount_put, refCount_addedRef]
      split_ifs with hid
      · rw [hid]
      · rfl
    rw [hocc, href, hbal]
    split_ifs <;> push_cast <;> omega

/-- The agent drops a reference that it is known to have. -/
theorem drop (h : m.Balanced) (ha : m.agents[a]? = some old) (hs : s.attached = true)
    (hcalm : s.view.Calm) {chunk : ChunkId} (hpos : 0 < m.store.index.refCount chunk)
    (hidx : s.index = m.store.index.dropRef chunk) (hheld : ∀ k ∈ new.holds, k ∈ old.holds)
    (hknows : new.Knows m.store.index.manifests)
    (hbal : ∀ id, new.balance id = old.balance id - if chunk = id then 1 else 0) :
    (({ m with store := s } : Machine).become a new).Balanced := by
  have hman : s.index.manifests = m.store.index.manifests := by rw [hidx, dropRef_manifests]
  refine h.became ha hs hcalm (fun k v hv => ?_) (hidx ▸ dropRef_counted h.counted chunk) hheld
    (fun k b _ _ => ?_) (hman ▸ hknows) fun id => ?_
  · rw [hman] at hv
    exact h.keyed k v hv
  · rw [hman]
  · have hocc : s.index.occurrences id = m.store.index.occurrences id :=
      congrArg (FinMap.total fun m : MediaManifest => m.chunks.count id) hman
    have href : s.index.refCount id
        = if chunk = id then m.store.index.refCount id - 1 else m.store.index.refCount id := by
      rw [hidx, refCount_dropRef]
    rw [hocc, href, hbal]
    split_ifs with hid
    · subst hid
      omega
    · omega

/-! ## Manifests -/

/-- The agent puts a manifest whose lock it holds. -/
theorem put (h : m.Balanced) (ha : m.agents[a]? = some old) (hs : s.attached = true)
    (hcalm : s.view.Calm) {manifest : MediaManifest}
    (hidx : s.index = applyEntry m.store.index (.putManifest manifest))
    (hkey : manifest.key ∈ old.holds) (hheld : ∀ k ∈ new.holds, k ∈ old.holds)
    (hknows : new.Knows (m.store.index.manifests.insert manifest.key manifest))
    (hbal : ∀ id, new.balance id + manifest.chunks.count id = old.balance id
      + ((m.store.index.manifests[manifest.key]?).elim 0 fun v => v.chunks.count id : Nat)) :
    (({ m with store := s } : Machine).become a new).Balanced := by
  refine h.became ha hs hcalm (hidx ▸ applyEntry_keyed h.keyed _) ?_ hheld (fun k b hb hk => ?_) ?_
    fun id => ?_
  · exact (show s.index.Counted from hidx ▸ h.counted)
  · rw [hidx, applyEntry, FinMap.get_insert, if_neg]
    rintro rfl
    rw [h.locked a old ha _ hkey] at hk
    exact hb (Option.some.inj hk).symm
  · exact (show new.Knows s.index.manifests from hidx ▸ hknows)
  · have hocc := occurrences_put m.store.index manifest id
    have href : (applyEntry m.store.index (.putManifest manifest)).refCount id
        = m.store.index.refCount id := rfl
    have := hbal id
    rw [hidx]
    omega

/-- The call ends with the removal of a manifest whose lock the agent holds. -/
theorem remove (h : m.Balanced) (ha : m.agents[a]? = some old) (hs : s.attached = true)
    (hcalm : s.view.Calm) {key : String}
    (hidx : s.index = applyEntry m.store.index (.deleteManifest key)) (hkey : key ∈ old.holds)
    (hbal : ∀ id, old.balance id
      + ((m.store.index.manifests[key]?).elim 0 fun v => v.chunks.count id : Nat) = 0) :
    (({ m with store := s } : Machine).leave a old).Balanced := by
  refine h.ended ha hs hcalm (hidx ▸ applyEntry_keyed h.keyed _) ?_ (fun k b hb hk => ?_) fun id => ?_
  · exact (show s.index.Counted from hidx ▸ h.counted)
  · rw [hidx, applyEntry, FinMap.get_erase, if_neg]
    rintro rfl
    rw [h.locked a old ha _ hkey] at hk
    exact hb (Option.some.inj hk).symm
  · have hocc := occurrences_delete m.store.index key id
    have href : (applyEntry m.store.index (.deleteManifest key)).refCount id
        = m.store.index.refCount id := rfl
    have := hbal id
    rw [hidx]
    omega

/-! ## Every action -/

/-- An agent that still owes a reference, or is to drop one more of its manifest's, finds one. -/
theorem refCount_pos (h : m.Balanced) {why : Release} {chunk : ChunkId} {chunks : List ChunkId}
    (ha : m.agents[a]? = some (.releasing why (chunk :: chunks))) :
    0 < m.store.index.refCount chunk := by
  have h1 := h.exact chunk
  have howed := FinMap.le_total (Agent.owed chunk) ha
  have hcount : 0 < (chunk :: chunks).count chunk := by simp
  cases why with
  | deleted key v =>
    obtain ⟨hv, hsuffix⟩ := h.knows a _ ha
    have h2 := h.ahead_add_le ha rfl hv chunk
    have h3 := hsuffix.sublist.count_le chunk
    have h4 : Agent.ahead chunk (.releasing (.deleted key v) (chunk :: chunks))
        = v.chunks.count chunk - (chunk :: chunks).count chunk := rfl
    omega
  | replaced key =>
    have h2 := h.ahead_le chunk
    have h3 : Agent.owed chunk (.releasing (.replaced key) (chunk :: chunks))
        = (chunk :: chunks).count chunk := rfl
    omega
  | aborted =>
    have h2 := h.ahead_le chunk
    have h3 : Agent.owed chunk (.releasing .aborted (chunk :: chunks))
        = (chunk :: chunks).count chunk := rfl
    omega

/-- An uncommitted session goes on with the same references. -/
theorem goSession (h : m.Balanced) {session session' : StoreSession}
    (ha : m.agents[a]? = some old) (hold : old.session? = some session)
    (hnew : new.session? = some session')
    (href : session'.referencedChunks = session.referencedChunks)
    (hheld : ∀ k ∈ new.holds, k ∈ old.holds) (hknows : new.Knows m.store.index.manifests) :
    (m.become a new).Balanced :=
  h.go ha hheld hknows fun id => by
    rw [Agent.balance_of_session hold, Agent.balance_of_session hnew, href]

/-- A flush begins, or there is nothing to flush. -/
theorem flush (h : m.Balanced) {session session' : StoreSession} (next : Next)
    (ha : m.agents[a]? = some old) (hold : old.session? = some session)
    (href : session'.referencedChunks = session.referencedChunks)
    (hknows : session'.referencedChunks = session'.chunks) :
    (m.flush a session' next).Balanced := by
  unfold Machine.flush Machine.resume
  split_ifs
  · cases next with
    | loop rest => exact h.goSession ha hold rfl href (by simp [Agent.holds]) hknows
    | commit => exact h.goSession ha hold rfl href (by simp [Agent.holds]) hknows
  · exact h.goSession ha hold rfl href (by simp [Agent.holds]) hknows

/-- Taking a reference on the chunk that was written or found. -/
theorem referencing (h : m.Balanced) {session : StoreSession} {chunk : Bytes} {next : Next}
    (ha : m.agents[a]? = some (.referencing session chunk next)) :
    (m.advance X a (.referencing session chunk next)).Balanced := by
  have hheld : session.referencedChunks = session.chunks := h.knows a _ ha
  let session' := session.addChunk (ChunkId.fromData X chunk) chunk
  have hheld' : session'.referencedChunks = session'.chunks :=
    congrArg (fun l => l ++ [ChunkId.fromData X chunk]) hheld
  have hcount : ∀ id, (session'.referencedChunks.count id : Int)
      = session.referencedChunks.count id + if ChunkId.fromData X chunk = id then 1 else 0 := by
    intro id
    simp only [session', StoreSession.addChunk, List.count_append, List.count_singleton,
      beq_iff_eq]
    split_ifs <;> simp
  rw [Machine.advance]
  refine exec_of_does h.attached (does_addChunkRef (h.calm.appends false)) fun s hs hv => ?_
  have hcalm : s.view.Calm := hv ▸ h.calm.applied _
  cases next with
  | loop rest =>
    refine h.add ha hs hcalm (congrArg View.index hv) rfl (fun _ => hheld') fun id => ?_
    rw [Agent.balance_of_session rfl, Agent.balance_of_session rfl, hcount]
  | commit =>
    refine h.add ha hs hcalm (congrArg View.index hv) rfl (fun _ => hheld') fun id => ?_
    rw [Agent.balance_of_session rfl, Agent.balance_of_session rfl, hcount]

/-- Dropping a reference. -/
theorem releasing (h : m.Balanced) {why : Release} {chunk : ChunkId} {chunks : List ChunkId}
    (ha : m.agents[a]? = some (.releasing why (chunk :: chunks))) :
    (m.advance X a (.releasing why (chunk :: chunks))).Balanced := by
  have hpos := h.refCount_pos ha
  have hknows := h.knows a _ ha
  rw [Machine.advance]
  refine exec_of_does h.attached (does_decrement h.calm chunk) fun s hs hv => ?_
  have hidx : s.index = m.store.index.dropRef chunk := congrArg View.index hv
  have hcalm : s.view.Calm := by rw [hv]; exact h.calm
  split_ifs
  · exact h.drop ha hs hcalm hpos hidx (fun k hk => by cases why <;> exact hk)
      (by cases why <;> exact hknows.tail) fun id => by
        rw [Agent.balance_unlinking, Agent.balance_releasing hknows]
  · exact h.drop ha hs hcalm hpos hidx (fun k hk => by cases why <;> exact hk) hknows.tail
      (Agent.balance_releasing hknows)

/-- What an agent does next keeps the balance. -/
theorem advance {agent : Agent} (h : m.Balanced) (ha : m.agents[a]? = some agent) :
    (m.advance X a agent).Balanced := by
  have hk := h.knows a agent ha
  have hview : ∀ {s : Store}, s.view = m.store.view → s.index = m.store.index ∧ s.view.Calm :=
    fun hv => ⟨congrArg View.index hv, hv ▸ h.calm⟩
  cases agent with
  | idle session => exact h
  | writing session rest =>
    simp only [Machine.advance]
    split_ifs
    · exact h.goSession ha rfl rfl rfl (by simp [Agent.holds]) hk
    · exact h.flush _ ha rfl rfl hk
    · exact h.goSession ha rfl rfl rfl (by simp [Agent.holds]) hk
  | checking session chunk next =>
    rw [Machine.advance]
    refine exec_of_does h.attached (does_chunkExists (X := X)) fun s hs hv => ?_
    split_ifs
    · exact h.stay ha hs (hview hv).2 (hview hv).1 (by simp [Agent.holds]) hk fun id => rfl
    · exact h.stay ha hs (hview hv).2 (hview hv).1 (by simp [Agent.holds]) hk fun id => rfl
  | creating session chunk next =>
    rw [Machine.advance]
    refine exec_of_does h.attached (does_createChunk h.calm.write) fun s hs hv => ?_
    have hcalm : s.view.Calm := hv ▸ h.calm.tail.trans h.calm
    exact h.stay ha hs hcalm (congrArg View.index hv) (by simp [Agent.holds]) hk fun id => rfl
  | referencing session chunk next => exact h.referencing ha
  | committing session =>
    rw [Machine.advance]
    refine exec_of_does h.attached (does_nowSecs (X := X)) fun s hs hv => ?_
    exact h.stay ha hs (hview hv).2 (hview hv).1 (by simp [Agent.holds]) hk fun id => rfl
  | locking session manifest =>
    exact h.lock ha (by simp [Agent.holds]) hk fun id => rfl
  | looking session manifest =>
    rw [Machine.advance]
    refine exec_of_does h.attached (does_getManifest (X := X)) fun s hs hv => ?_
    exact h.stay ha hs (hview hv).2 (hview hv).1 (fun k hk => hk) ⟨hk, rfl⟩ fun id => rfl
  | putting session manifest previous =>
    obtain ⟨href, hprev⟩ := hk
    rw [Machine.advance]
    refine exec_of_does h.attached (does_putManifest (h.calm.appends true) h.calm.compact)
      fun s hs hv => ?_
    refine h.put ha hs (hv ▸ h.calm.applied _) (congrArg View.index hv) (by simp [Agent.holds])
      (by simp [Agent.holds]) trivial fun id => ?_
    rw [@Agent.balance_of_session (.putting session manifest previous) _ rfl, hprev, href]
    cases previous <;> simp [Agent.balance, Agent.inSession, Agent.session?, Agent.owed,
      Agent.ahead, Int.add_comm]
  | releasing why chunks =>
    cases chunks with
    | cons chunk chunks => exact h.releasing ha
    | nil =>
      cases why with
      | deleted key manifest =>
        exact h.go ha (by simp [Agent.holds]) hk.1 fun id => by
          simp [Agent.balance, Agent.inSession, Agent.session?, Agent.owed, Agent.ahead]
      | replaced key => exact h.leave ha h.attached h.calm rfl fun id => rfl
      | aborted => exact h.leave ha h.attached h.calm rfl fun id => rfl
  | unlinking why chunk chunks =>
    rw [Machine.advance]
    refine exec_of_does h.attached (does_deleteChunk (X := X) h.calm.remove) fun s hs hv => ?_
    have hcalm : s.view.Calm := by
      rw [hv, View.unlinked]
      split_ifs
      · exact h.calm.tail.trans h.calm
      · exact h.calm
    exact h.stay ha hs hcalm ((congrArg View.index hv).trans (unlinked_index _ _))
      (fun k hk => by cases why <;> exact hk) (by cases why <;> exact hk) fun id =>
        (Agent.balance_unlinking ..).symm
  | deleting key => exact h.lock ha (by simp [Agent.holds]) trivial fun id => rfl
  | deleteLooking key =>
    rw [Machine.advance]
    refine exec_of_does h.attached (does_getManifest (X := X)) fun s hs hv => ?_
    cases hfound : m.store.view.index.manifests[key]? with
    | none => exact h.leave ha hs (hview hv).2 (hview hv).1 fun id => rfl
    | some manifest =>
      exact h.stay ha hs (hview hv).2 (hview hv).1 (fun k hk => hk) ⟨hfound, List.suffix_refl _⟩
        fun id => by simp [Agent.balance, Agent.inSession, Agent.session?, Agent.owed, Agent.ahead]
  | removing key manifest =>
    rw [Machine.advance]
    refine exec_of_does h.attached (does_deleteManifest (h.calm.appends true) h.calm.compact)
      fun s hs hv => ?_
    refine h.remove ha hs (hv ▸ h.calm.applied _) (congrArg View.index hv) (by simp [Agent.holds])
      fun id => ?_
    rw [show m.store.index.manifests[key]? = some manifest from hk]
    simp [Agent.balance, Agent.inSession, Agent.session?, Agent.owed, Agent.ahead]
  | renameLocking fromKey toKey => exact h.lock ha (by simp [Agent.holds]) hk fun id => rfl
  | renamingLocked fromKey toKey =>
    exact h.lock ha (by simp [Agent.holds]) hk fun id => rfl
  | renameLooking fromKey toKey =>
    rw [Machine.advance]
    refine exec_of_does h.attached (does_getManifest (X := X)) fun s hs hv => ?_
    cases hfound : m.store.view.index.manifests[fromKey]? with
    | none => exact h.leave ha hs (hview hv).2 (hview hv).1 fun id => rfl
    | some manifest =>
      exact h.stay ha hs (hview hv).2 (hview hv).1 (fun k hk => hk) ⟨hk, hfound⟩ fun id => rfl
  | renameChecking fromKey toKey manifest =>
    obtain ⟨hne, hfrom⟩ := hk
    have hx : Does (lens X false) (do return (← Index.getManifest toKey, ← nowSecs) : M _)
        m.store.view _ _ := Does.bind does_getManifest (Does.bind does_nowSecs (Does.pure _))
    rw [Machine.advance]
    refine exec_of_does h.attached hx fun s hs hv => ?_
    cases hto : m.store.view.index.manifests[toKey]? with
    | some _ => exact h.leave ha hs (hview hv).2 (hview hv).1 fun id => rfl
    | none =>
      exact h.stay ha hs (hview hv).2 (hview hv).1 (fun k hk => hk)
        ⟨hne, rfl, hto, manifest, hfrom, rfl⟩ fun id => rfl
  | moving fromKey toKey manifest =>
    obtain ⟨hne, hkey, hto, old, hfrom, hchunks⟩ := hk
    rw [Machine.advance]
    refine exec_of_does h.attached (does_putManifest (h.calm.appends true) h.calm.compact)
      fun s hs hv => ?_
    refine h.put ha hs (hv ▸ h.calm.applied _) (congrArg View.index hv)
      (hkey ▸ to_mem_locks fromKey toKey) (fun k hk => hk) ⟨hne, ?_, old, ?_, hchunks⟩ fun id => ?_
    · rw [FinMap.get_insert, if_pos hkey]
    · rw [FinMap.get_insert, if_neg (hkey ▸ hne.symm), hfrom]
    · rw [hkey, hto]
      simp [Agent.balance, Agent.inSession, Agent.session?, Agent.owed, Agent.ahead]
  | removingOld fromKey toKey manifest =>
    obtain ⟨-, -, old, hfrom, hchunks⟩ := hk
    rw [Machine.advance]
    refine exec_of_does h.attached (does_deleteManifest (h.calm.appends true) h.calm.compact)
      fun s hs hv => ?_
    refine h.remove ha hs (hv ▸ h.calm.applied _) (congrArg View.index hv)
      (from_mem_locks fromKey toKey) fun id => ?_
    rw [hfrom, Option.elim_some, hchunks]
    simp [Agent.balance, Agent.inSession, Agent.session?, Agent.owed, Agent.ahead]

/-- A new agent that accounts for nothing. -/
theorem enter (h : m.Balanced) {new : Agent} (hholds : new.holds = [])
    (hknows : new.Knows m.store.index.manifests) (hbal : ∀ id, new.balance id = 0) :
    (m.enter a (m.become a new)).Balanced := by
  unfold Machine.enter
  split_ifs with ha
  · exact h
  · have hnone : m.agents[a]? = none := by simpa using ha
    refine h.move a none (some new) hnone (become_get _ a new)
      (fun b hb => become_get_ne _ new hb) h.attached h.calm h.keyed h.counted
      (fun k b _ hk => hk) (fun agent hagent k hk => ?_) (fun _ _ _ _ => rfl)
      (fun agent hagent => ?_) fun id => ?_
    · cases hagent
      rw [hholds] at hk
      cases hk
    · cases hagent
      exact hknows
    · simp [become, hbal]

theorem enter_self (h : m.Balanced) : (m.enter a m).Balanced := by
  unfold Machine.enter
  rwa [ite_self]

theorem begin (h : m.Balanced) (key contentType : String) (metadata : List (String × String)) :
    (m.enter a (m.exec (m.engine.beginStore key contentType metadata)
      (fun m session => m.become a (.idle session)) id)).Balanced := by
  unfold Machine.exec StorageEngine.beginStore
  cases validateKey key with
  | error e => exact h.enter_self
  | ok u =>
    by_cases hbig : isizeMax < m.engine.chunkSize
    · rw [if_pos hbig]
      exact h.enter_self
    · rw [if_neg hbig]
      exact h.enter rfl rfl fun id => rfl

theorem rename (h : m.Balanced) (fromKey toKey : String) :
    (m.enter a (m.exec (check (validateKey toKey))
      (fun m _ => if fromKey = toKey then m else m.become a (.renameLocking fromKey toKey))
      id)).Balanced := by
  unfold Machine.exec
  cases validateKey toKey with
  | error e => exact h.enter_self
  | ok u =>
    by_cases hne : fromKey = toKey
    · subst hne
      show (m.enter a (if fromKey = fromKey then m else _)).Balanced
      rw [if_pos rfl]
      exact h.enter_self
    · show (m.enter a (if fromKey = toKey then m else _)).Balanced
      rw [if_neg hne]
      exact h.enter rfl hne fun id => rfl

/-- **Every action keeps the balance.** -/
theorem step (h : m.Balanced) (action : Action) : (m.step X action).Balanced := by
  have hidle : ∀ {a : Nat} {call : StoreSession → Machine},
      (∀ session, m.agents[a]? = some (.idle session) → (call session).Balanced) →
      (m.onIdle a call).Balanced := by
    intro a call hcall
    unfold Machine.onIdle
    split
    · exact hcall _ ‹_›
    · exact h
  cases action with
  | begin a key contentType metadata => exact h.begin key contentType metadata
  | write a data =>
    refine hidle fun session ha => ?_
    split_ifs
    · exact h
    · have hknows := h.knows a _ ha
      exact h.goSession ha rfl rfl rfl (by simp [Agent.holds]) hknows
  | finish a => exact hidle fun session ha => h.flush .commit ha rfl rfl (h.knows a _ ha)
  | abort a =>
    refine hidle fun session ha => h.go ha (by simp [Agent.holds]) trivial fun id => ?_
    simp [Agent.balance, Agent.inSession, Agent.session?, Agent.owed, Agent.ahead]
  | delete a key => exact h.enter rfl trivial fun id => rfl
  | rename a fromKey toKey => exact h.rename fromKey toKey
  | advance a =>
    simp only [Machine.step]
    split
    · exact h.advance ‹_›
    · exact h
  | tick now => exact ⟨h.attached, h.calm, h.keyed, h.counted, h.locked, h.knows, h.exact⟩

theorem run (h : m.Balanced) : ∀ actions : List Action, (m.run X actions).Balanced := by
  intro actions
  induction actions generalizing m with
  | nil => exact h
  | cons action actions ih => exact ih (h.step action)

theorem start (engine : StorageEngine) (dataDir : String) :
    (Machine.start engine dataDir).Balanced where
  attached := rfl
  calm := rfl
  keyed k v hv := by simp [Machine.start, Store.emptyDir, IndexState.empty] at hv
  counted hex loc hloc := by simp [Machine.start, Store.emptyDir, IndexState.empty] at hloc
  locked a agent ha := by simp [Machine.start] at ha
  knows a agent ha := by simp [Machine.start] at ha
  exact id := by
    simp [Machine.start, Store.emptyDir, IndexState.empty, IndexState.refCount,
      IndexState.occurrences]

end Balanced

/-- No call is in progress: every agent is a session between two calls. -/
def Quiet (m : Machine) : Prop :=
  ∀ (a : Nat) (agent : Agent), m.agents[a]? = some agent → ∃ session, agent = .idle session

end Machine

/-- **Reference counts are exact.** After every run the count of a chunk is the number of its
occurrences in visible manifests and in uncommitted sessions, with the references that calls in
progress still owe and without those they are ahead by; no entry has count 0. -/
theorem refCounts_exact (X : Crates) (engine : StorageEngine) (dataDir : String)
    (actions : List Action) :
    let m := (Machine.start engine dataDir).run X actions
    (∀ id, m.store.index.refCount id + FinMap.total (Agent.ahead id) m.agents
      = m.store.index.occurrences id + FinMap.total (Agent.inSession id) m.agents
        + FinMap.total (Agent.owed id) m.agents) ∧
    m.store.index.Counted ∧
    (m.Quiet → ∀ id, m.store.index.refCount id
      = m.store.index.occurrences id + FinMap.total (Agent.inSession id) m.agents) := by
  intro m
  have h : m.Balanced := (Machine.Balanced.start engine dataDir).run actions
  refine ⟨h.exact, h.counted, fun hquiet id => ?_⟩
  have hexact := h.exact id
  have hnone : ∀ f : Agent → Nat, (∀ session, f (.idle session) = 0) →
      FinMap.total f m.agents = 0 := by
    intro f hf
    refine FinMap.total_eq_zero f fun a agent ha => ?_
    obtain ⟨session, rfl⟩ := hquiet a agent ha
    exact hf session
  rw [hnone (Agent.ahead id) fun _ => rfl, hnone (Agent.owed id) fun _ => rfl] at hexact
  exact hexact

end KaidaDB
