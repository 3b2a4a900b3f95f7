import KaidaDB.Concurrent.Machine
import KaidaDB.Storage.Proof.Calls

/-!
# Accounts of references

What an agent contributes to the balance between reference counts and manifests: `inSession` for a
session that is neither committed nor aborted, `owed` for references it still has to drop although no
manifest stands for them any more, and `ahead` for occurrences in visible manifests that it has
dropped the references of already, or never took references for. `Machine.Balanced` states the balance
together with what each agent knows of the manifests whose locks it holds; `Balanced.move` is its
preservation by the move of one agent.
-/

namespace KaidaDB

open Std Effects

/-! ## What an agent accounts for -/

namespace Agent

/-- The session of an agent that has not committed or aborted it. -/
def session? : Agent → Option StoreSession
  | .idle s | .writing s _ | .checking s _ _ | .creating s _ _ | .referencing s _ _
  | .committing s | .locking s _ | .looking s _ | .putting s _ _ => some s
  | _ => none

/-- Occurrences in its `referenced_chunks`. -/
def inSession (id : ChunkId) (agent : Agent) : Nat :=
  agent.session?.elim 0 fun s => s.referencedChunks.count id

/-- Decrements that `finish` and `abort` have yet to make. -/
def owed (id : ChunkId) : Agent → Nat
  | .releasing (.replaced _) ids | .unlinking (.replaced _) _ ids
  | .releasing .aborted ids | .unlinking .aborted _ ids => ids.count id
  | _ => 0

/-- Decrements that `delete` has made for its manifest, which is still visible, and the second of the
manifests that `rename` makes visible. -/
def ahead (id : ChunkId) : Agent → Nat
  | .releasing (.deleted _ m) ids | .unlinking (.deleted _ m) _ ids =>
    m.chunks.count id - ids.count id
  | .removing _ m | .removingOld _ _ m => m.chunks.count id
  | _ => 0

/-- What it adds to the counts of references. -/
def balance (id : ChunkId) (agent : Agent) : Int :=
  agent.inSession id + agent.owed id - agent.ahead id

theorem balance_of_session {agent : Agent} {s : StoreSession} (h : agent.session? = some s)
    (id : ChunkId) : agent.balance id = s.referencedChunks.count id := by
  unfold balance inSession
  rw [h]
  cases agent <;> simp_all [session?, owed, ahead]

/-- The key whose manifest it is ahead of. -/
def claim : Agent → Option String
  | .releasing (.deleted key _) _ | .unlinking (.deleted key _) _ _ | .removing key _ => some key
  | .removingOld fromKey _ _ => some fromKey
  | _ => none

/-- What holds of its local variables, given the manifests. -/
def Knows (manifests : ExtTreeMap String MediaManifest) : Agent → Prop
  | .idle s | .writing s _ | .checking s _ _ | .creating s _ _ | .referencing s _ _
  | .committing s => s.referencedChunks = s.chunks
  | .locking s m | .looking s m => s.referencedChunks = m.chunks
  | .putting s m previous => s.referencedChunks = m.chunks ∧ manifests[m.key]? = previous
  | .releasing (.deleted key m) ids | .unlinking (.deleted key m) _ ids =>
    manifests[key]? = some m ∧ ids <:+ m.chunks
  | .removing key m => manifests[key]? = some m
  | .renameLocking fromKey toKey | .renamingLocked fromKey toKey | .renameLooking fromKey toKey =>
    fromKey ≠ toKey
  | .renameChecking fromKey toKey m => fromKey ≠ toKey ∧ manifests[fromKey]? = some m
  | .moving fromKey toKey m => fromKey ≠ toKey ∧ m.key = toKey ∧ manifests[toKey]? = none ∧
    ∃ old, manifests[fromKey]? = some old ∧ old.chunks = m.chunks
  | .removingOld fromKey toKey m => fromKey ≠ toKey ∧ manifests[toKey]? = some m ∧
    ∃ old, manifests[fromKey]? = some old ∧ old.chunks = m.chunks
  | _ => True

end Agent

theorem Agent.balance_unlinking (why : Release) (chunk : ChunkId) (chunks : List ChunkId)
    (id : ChunkId) : Agent.balance id (.unlinking why chunk chunks)
      = Agent.balance id (.releasing why chunks) := by
  cases why <;> rfl

theorem Agent.Knows.tail {t : ExtTreeMap String MediaManifest} {why : Release} {chunk : ChunkId}
    {chunks : List ChunkId} (h : Knows t (.releasing why (chunk :: chunks))) :
    Knows t (.releasing why chunks) := by
  cases why with
  | deleted key m => exact ⟨h.1, (List.suffix_cons _ _).trans h.2⟩
  | _ => trivial

/-- A reference dropped is owed no more, or the agent is ahead by one more. -/
theorem Agent.balance_releasing {t : ExtTreeMap String MediaManifest} {why : Release}
    {chunk : ChunkId} {chunks : List ChunkId} (h : Knows t (.releasing why (chunk :: chunks)))
    (id : ChunkId) : Agent.balance id (.releasing why chunks)
      = Agent.balance id (.releasing why (chunk :: chunks)) - if chunk = id then 1 else 0 := by
  have hcons : (chunk :: chunks).count id = chunks.count id + if chunk = id then 1 else 0 := by
    simp [List.count_cons]
  cases why with
  | deleted key m =>
    have := h.2.sublist.count_le id
    simp only [balance, inSession, session?, owed, ahead, Option.elim_none]
    split_ifs at * <;> omega
  | replaced key =>
    simp only [balance, inSession, session?, owed, ahead, Option.elim_none]
    split_ifs at * <;> omega
  | aborted =>
    simp only [balance, inSession, session?, owed, ahead, Option.elim_none]
    split_ifs at * <;> omega

theorem from_mem_locks (fromKey toKey : String) :
    fromKey ∈ [firstLock fromKey toKey, secondLock fromKey toKey] := by
  unfold firstLock secondLock
  split_ifs <;> simp

theorem to_mem_locks (fromKey toKey : String) :
    toKey ∈ [firstLock fromKey toKey, secondLock fromKey toKey] := by
  unfold firstLock secondLock
  split_ifs <;> simp

/-- What an agent knows it knows of manifests whose locks it holds. -/
theorem Agent.Knows.frame {t u : ExtTreeMap String MediaManifest} {agent : Agent}
    (h : agent.Knows t) (hu : ∀ k ∈ agent.holds, u[k]? = t[k]?) : agent.Knows u := by
  cases agent with
  | putting s m previous => exact ⟨h.1, (hu _ (by simp [holds])).trans h.2⟩
  | releasing why ids =>
    cases why with
    | deleted key m => exact ⟨(hu _ (by simp [holds])).trans h.1, h.2⟩
    | _ => trivial
  | unlinking why id ids =>
    cases why with
    | deleted key m => exact ⟨(hu _ (by simp [holds])).trans h.1, h.2⟩
    | _ => trivial
  | removing key m => exact (hu _ (by simp [holds])).trans h
  | renameChecking fromKey toKey m => exact ⟨h.1, (hu _ (from_mem_locks _ _)).trans h.2⟩
  | moving fromKey toKey m =>
    obtain ⟨h1, h2, h3, old, h4, h5⟩ := h
    exact ⟨h1, h2, (hu _ (to_mem_locks _ _)).trans h3, old,
      (hu _ (from_mem_locks _ _)).trans h4, h5⟩
  | removingOld fromKey toKey m =>
    obtain ⟨h1, h2, old, h3, h4⟩ := h
    exact ⟨h1, (hu _ (to_mem_locks _ _)).trans h2, old, (hu _ (from_mem_locks _ _)).trans h3, h4⟩
  | _ => exact h

/-- An agent is ahead of one manifest at most, whose lock it holds, and by what that shows at most. -/
theorem Agent.ahead_of_claim {t : ExtTreeMap String MediaManifest} {agent : Agent}
    (h : agent.Knows t) : match agent.claim with
    | none => ∀ id, agent.ahead id = 0
    | some key => key ∈ agent.holds ∧
      ∃ m : MediaManifest, t[key]? = some m ∧ ∀ id, agent.ahead id ≤ m.chunks.count id := by
  cases agent with
  | releasing why ids =>
    cases why with
    | deleted key m => exact ⟨by simp [holds], m, h.1, fun id => Nat.sub_le _ _⟩
    | _ => exact fun id => rfl
  | unlinking why id ids =>
    cases why with
    | deleted key m => exact ⟨by simp [holds], m, h.1, fun id => Nat.sub_le _ _⟩
    | _ => exact fun id => rfl
  | removing key m => exact ⟨by simp [holds], m, h, fun id => le_rfl⟩
  | removingOld fromKey toKey m =>
    obtain ⟨-, -, old, h1, h2⟩ := h
    exact ⟨from_mem_locks _ _, old, h1, fun id => by rw [h2]; exact le_rfl⟩
  | _ => exact fun id => rfl

/-! ## The balance -/

structure Machine.Balanced (m : Machine) : Prop where
  attached : m.store.attached = true
  calm : m.store.view.Calm
  keyed : m.store.index.Keyed
  counted : m.store.index.Counted
  locked : ∀ (a : Nat) (agent : Agent), m.agents[a]? = some agent → ∀ k ∈ agent.holds, m.locks[k]? = some a
  knows : ∀ (a : Nat) (agent : Agent), m.agents[a]? = some agent → agent.Knows m.store.index.manifests
  exact : ∀ id, m.store.index.refCount id + FinMap.total (Agent.ahead id) m.agents
    = m.store.index.occurrences id + FinMap.total (Agent.inSession id) m.agents
      + FinMap.total (Agent.owed id) m.agents

namespace Machine.Balanced

variable {m : Machine}

/-- Agents with a claim on the same manifest are the same. -/
theorem claim_inj (h : m.Balanced) {a b : Nat} {agent agent' : Agent} {key : String}
    (ha : m.agents[a]? = some agent) (hb : m.agents[b]? = some agent')
    (hk : agent.claim = some key) (hk' : agent'.claim = some key) : a = b := by
  have h1 := Agent.ahead_of_claim (h.knows a agent ha)
  have h2 := Agent.ahead_of_claim (h.knows b agent' hb)
  rw [hk] at h1
  rw [hk'] at h2
  have h3 := h.locked a agent ha key h1.1
  rw [h.locked b agent' hb key h2.1] at h3
  exact (Option.some.inj h3).symm

/-- What all agents are ahead of is there. -/
theorem ahead_le (h : m.Balanced) (id : ChunkId) :
    FinMap.total (Agent.ahead id) m.agents ≤ m.store.index.occurrences id := by
  refine FinMap.total_le_total _ _ Agent.claim (fun a agent ha hk => ?_)
    (fun a agent k ha hk => ?_) fun a b agent agent' k ha hb hk hk' => h.claim_inj ha hb hk hk'
  · have h1 := Agent.ahead_of_claim (h.knows a agent ha)
    rw [hk] at h1
    exact h1 id
  · have h1 := Agent.ahead_of_claim (h.knows a agent ha)
    rw [hk] at h1
    obtain ⟨-, v, hv, hle⟩ := h1
    exact ⟨v, hv, hle id⟩

/-- Agents that do not claim a manifest leave all its occurrences over. -/
theorem unclaimed_le (h : m.Balanced) (agents : ExtTreeMap Nat Agent) {key : String}
    {v : MediaManifest} (hv : m.store.index.manifests[key]? = some v)
    (hsub : ∀ (b : Nat) agent, agents[b]? = some agent →
      m.agents[b]? = some agent ∧ agent.claim ≠ some key) (id : ChunkId) :
    FinMap.total (Agent.ahead id) agents + v.chunks.count id ≤ m.store.index.occurrences id := by
  have hle : FinMap.total (Agent.ahead id) agents
      ≤ FinMap.total (fun m : MediaManifest => m.chunks.count id)
        (m.store.index.manifests.erase key) := by
    refine FinMap.total_le_total _ _ Agent.claim (fun b agent hb hk => ?_)
      (fun b agent k hb hk => ?_) fun b c agent agent' k hb hc hk hk' =>
        h.claim_inj (hsub b _ hb).1 (hsub c _ hc).1 hk hk'
    · have h1 := Agent.ahead_of_claim (h.knows b agent (hsub b _ hb).1)
      rw [hk] at h1
      exact h1 id
    · obtain ⟨hb', hne⟩ := hsub b _ hb
      have h1 := Agent.ahead_of_claim (h.knows b agent hb')
      rw [hk] at h1
      obtain ⟨-, v, hv, hle⟩ := h1
      have hkey : key ≠ k := fun he => hne (he ▸ hk)
      exact ⟨v, by rw [FinMap.get_erase, if_neg hkey, hv], hle id⟩
  have h2 := FinMap.total_erase (fun m : MediaManifest => m.chunks.count id)
    m.store.index.manifests key
  rw [hv, Option.elim_some] at h2
  exact (Nat.add_le_add_right hle _).trans_eq h2

theorem unclaimed (h : m.Balanced) {key : String} {v : MediaManifest}
    (hv : m.store.index.manifests[key]? = some v)
    (hnot : ∀ (a : Nat) agent, m.agents[a]? = some agent → agent.claim ≠ some key) (id : ChunkId) :
    FinMap.total (Agent.ahead id) m.agents + v.chunks.count id
      ≤ m.store.index.occurrences id :=
  h.unclaimed_le m.agents hv (fun a agent ha => ⟨ha, hnot a agent ha⟩) id

/-- An agent whose manifest shows more than it is ahead of leaves that much over. -/
theorem ahead_add_le (h : m.Balanced) {a : Nat} {agent : Agent} {key : String} {v : MediaManifest}
    (ha : m.agents[a]? = some agent) (hk : agent.claim = some key)
    (hv : m.store.index.manifests[key]? = some v) (id : ChunkId) :
    FinMap.total (Agent.ahead id) m.agents + v.chunks.count id
      ≤ m.store.index.occurrences id + agent.ahead id := by
  have h1 := FinMap.total_erase (Agent.ahead id) m.agents a
  rw [ha, Option.elim_some] at h1
  have h2 := h.unclaimed_le (m.agents.erase a) hv (fun b agent' hb => ?_) id
  · omega
  · rw [FinMap.get_erase] at hb
    split_ifs at hb with hab
    exact ⟨hb, fun hk' => hab (h.claim_inj ha hb hk hk')⟩

/-- **One agent moves.** It may change the manifests whose locks nobody else holds, and what it
changes in counts and manifests is what changes in its own balance. -/
theorem move (h : m.Balanced) {m' : Machine} (a : Nat) (old new : Option Agent)
    (hold : m.agents[a]? = old) (hnew : m'.agents[a]? = new)
    (hothers : ∀ b : Nat, b ≠ a → m'.agents[b]? = m.agents[b]?)
    (hattached : m'.store.attached = true) (hcalm : m'.store.view.Calm)
    (hkeyed : m'.store.index.Keyed)
    (hcounted : m'.store.index.Counted)
    (hlocks : ∀ (k : String) (b : Nat), b ≠ a → m.locks[k]? = some b → m'.locks[k]? = some b)
    (hheld : ∀ agent, new = some agent → ∀ k ∈ agent.holds, m'.locks[k]? = some a)
    (hframe : ∀ (k : String) (b : Nat), b ≠ a → m.locks[k]? = some b →
      m'.store.index.manifests[k]? = m.store.index.manifests[k]?)
    (hknows : ∀ agent, new = some agent → agent.Knows m'.store.index.manifests)
    (hbalance : ∀ id, (m'.store.index.refCount id : Int) - m.store.index.refCount id
      = m'.store.index.occurrences id - m.store.index.occurrences id
        + new.elim 0 (Agent.balance id) - old.elim 0 (Agent.balance id)) : m'.Balanced where
  attached := hattached
  calm := hcalm
  keyed := hkeyed
  counted := hcounted
  locked b agent hb k hk := by
    by_cases hab : b = a
    · subst hab
      exact hheld agent (hnew.symm.trans hb) k hk
    · rw [hothers b hab] at hb
      exact hlocks k b hab (h.locked b agent hb k hk)
  knows b agent hb := by
    by_cases hab : b = a
    · subst hab
      exact hknows agent (hnew.symm.trans hb)
    · rw [hothers b hab] at hb
      exact (h.knows b agent hb).frame fun k hk => hframe k b hab (h.locked b agent hb k hk)
  exact id := by
    have h0 := h.exact id
    have h1 := hbalance id
    have h2 := FinMap.total_update (Agent.ahead id) hnew hothers
    have h3 := FinMap.total_update (Agent.inSession id) hnew hothers
    have h4 := FinMap.total_update (Agent.owed id) hnew hothers
    rw [hold] at h2 h3 h4
    cases old <;> cases new <;>
      simp only [Option.elim_none, Option.elim_some, Agent.balance] at h1 h2 h3 h4 <;> omega

end Machine.Balanced

end KaidaDB
