import KaidaDB.Crates.Reference
import KaidaDB.Concurrent.Proof.Steps

/-!
# Chunk files under concurrent releases

A release removes the file of a chunk some time after it has dropped the last reference, and a flush
takes its reference some time after it has found the file; no lock spans either pair. Where every
removal is `Unraced` an indexed chunk keeps its file, so every object that is not being deleted is
complete, and where removals are also `Spared` every visible object is (`objects_complete`). A
flush that finds the file just before it goes commits an object without it (`object_incomplete`).
-/

namespace KaidaDB

open Std Effects

variable {X : Crates}

/-! ## The conditions -/

/-- The key of the object an agent is deleting, once it has begun to drop its references. -/
def Agent.deleting? : Agent → Option String
  | .releasing (.deleted key _) _ | .unlinking (.deleted key _) _ _ | .removing key _ => some key
  | _ => none

namespace Machine

/-- The object is being deleted. -/
def Deleting (m : Machine) (key : String) : Prop := ∃ p ∈ m.agents.toList, p.2.deleting? = some key

/-- Every chunk of a visible object that is not exempt has its file. -/
def Complete (m : Machine) (exempt : String → Prop) : Prop :=
  ∀ (key : String) manifest, m.store.index.manifests[key]? = some manifest → ¬ exempt key →
    ∀ id ∈ manifest.chunks, (m.store.files[id.toHex]?).isSome

/-- A chunk whose file the action removes is not indexed, and no flush in progress holds its file. -/
def Unraced (X : Crates) (m : Machine) (action : Action) : Prop :=
  ∀ id ∈ (m.deed X action).unlinked?,
    (m.store.index.chunkLocations[id.toHex]?).isNone ∧ ¬ m.InFlight X id

/-- A chunk whose file the action removes is not listed by an object that is being deleted. -/
def Spared (X : Crates) (m : Machine) (action : Action) : Prop :=
  ∀ id ∈ (m.deed X action).unlinked?, ∀ p ∈ m.agents.toList, ∀ key ∈ p.2.deleting?,
    ∀ manifest ∈ m.store.index.manifests[key]?, id ∉ manifest.chunks

/-- Every action of a run meets a condition on the state before it. -/
def Throughout (X : Crates) (P : Machine → Action → Prop) : Machine → List Action → Prop
  | _, [] => True
  | m, action :: actions => P m action ∧ Throughout X P (m.step X action) actions

instance (X : Crates) (m : Machine) (action : Action) : Decidable (m.Unraced X action) :=
  inferInstanceAs (Decidable (∀ id ∈ (m.deed X action).unlinked?, _))

instance (X : Crates) (m : Machine) (action : Action) : Decidable (m.Spared X action) :=
  inferInstanceAs (Decidable (∀ id ∈ (m.deed X action).unlinked?, _))

instance Throughout.decidable (X : Crates) {P : Machine → Action → Prop}
    [∀ m action, Decidable (P m action)] :
    ∀ (m : Machine) (actions : List Action), Decidable (Throughout X P m actions)
  | _, [] => .isTrue trivial
  | m, action :: actions =>
    haveI := Throughout.decidable X (P := P) (m.step X action) actions
    inferInstanceAs (Decidable (_ ∧ _))

/-! ## Indexed chunks have their files -/

/-- The file of a chunk is there as long as the index or a flush in progress relies on it. -/
structure Filed (X : Crates) (m : Machine) : Prop where
  indexed : ∀ (hex : String) loc, m.store.index.chunkLocations[hex]? = some loc →
    (m.store.files[hex]?).isSome
  held : ∀ id, m.InFlight X id → (m.store.files[id.toHex]?).isSome

variable {m : Machine} {action : Action}

/-- A deed is that of the agent that goes on. -/
theorem deed_inv {deed : Deed} (h : m.deed X action = deed) (hne : deed ≠ .nothing) :
    ∃ (a : Nat) (agent : Agent), m.agents[a]? = some agent ∧ agent.deed X m.store = deed := by
  cases action with
  | advance a =>
    simp only [Machine.deed] at h
    cases ha : m.agents[a]? with
    | none =>
      rw [ha] at h
      exact absurd h.symm hne
    | some agent =>
      rw [ha] at h
      exact ⟨a, agent, ha, h⟩
  | _ => exact absurd h.symm hne

theorem deed_referenced {id : ChunkId} {path : String} (h : m.deed X action = .referenced id path) :
    m.InFlight X id := by
  obtain ⟨a, agent, ha, hdeed⟩ := deed_inv h nofun
  refine inFlight_iff.2 ⟨a, agent, ha, ?_⟩
  unfold Agent.deed at hdeed
  split at hdeed <;> simp_all [Agent.holding?]
  split at hdeed <;> cases hdeed

theorem deed_found {id : ChunkId} (h : m.deed X action = .found id) :
    (m.store.files[id.toHex]?).isSome := by
  obtain ⟨a, agent, ha, hdeed⟩ := deed_inv h nofun
  unfold Agent.deed at hdeed
  split at hdeed <;> simp_all
  split at hdeed <;> simp_all

/-- A manifest is put by a session that refers to its chunks, or stands for one that is visible. -/
theorem deed_put (h : m.Balanced) {manifest : MediaManifest}
    (hdeed : m.deed X action = .put manifest) :
    (∀ id ∈ manifest.chunks, 0 < m.store.index.refCount id) ∨
      ∃ (key : String) (old : MediaManifest), m.store.index.manifests[key]? = some old ∧
        old.chunks = manifest.chunks := by
  obtain ⟨a, agent, ha, hdeed⟩ := deed_inv hdeed nofun
  have hk := h.knows a agent ha
  cases agent with
  | putting session m1 previous =>
    cases hdeed
    refine .inl fun id hid => ?_
    have h1 := h.exact id
    have h2 := h.ahead_le id
    have h3 := FinMap.le_total (Agent.inSession id) ha
    have h4 : Agent.inSession id (.putting session manifest previous)
        = manifest.chunks.count id := congrArg (List.count id) hk.1
    have h5 := List.count_pos_iff.2 hid
    omega
  | moving fromKey toKey m1 =>
    cases hdeed
    obtain ⟨-, -, -, old, hold, hchunks⟩ := hk
    exact .inr ⟨fromKey, old, hold, hchunks⟩
  | checking session chunk next =>
    simp only [Agent.deed] at hdeed
    split at hdeed <;> cases hdeed
  | releasing why chunks => cases chunks <;> cases hdeed
  | _ => cases hdeed

theorem indexed_of_refCount {s : IndexState} {id : ChunkId} (h : 0 < s.refCount id) :
    ∃ loc, s.chunkLocations[id.toHex]? = some loc := by
  cases hloc : s.chunkLocations[id.toHex]? with
  | some loc => exact ⟨loc, rfl⟩
  | none => simp [IndexState.refCount, hloc] at h

/-- A chunk gets indexed when a reference is taken. -/
theorem indexed_after {s : IndexState} {deed : Deed} {hex : String}
    (h : ((deed.index s).chunkLocations[hex]?).isSome) :
    (s.chunkLocations[hex]?).isSome ∨ ∃ id path, deed = .referenced id path ∧ id.toHex = hex := by
  cases deed with
  | referenced id path =>
    simp only [Deed.index, Deed.appended?, Option.elim_some, applyEntry, FinMap.get_insert] at h
    split_ifs at h with hhex
    · exact .inr ⟨id, path, rfl, hhex⟩
    · exact .inl h
  | dropped id =>
    rw [index_dropped, dropRef_locations] at h
    exact .inl h.1
  | _ => exact .inl h

/-- A file goes when it is removed. -/
theorem file_after {s : Store} {deed : Deed} {hex : String} (h : (s.files[hex]?).isSome) :
    ((deed.files X s)[hex]?).isSome ∨ ∃ id, deed = .unlinked id ∧ id.toHex = hex := by
  cases deed with
  | created id data =>
    simp only [Deed.files, FinMap.get_insert]
    split_ifs
    · exact .inl rfl
    · exact .inl h
  | unlinked id =>
    simp only [Deed.files, FinMap.get_erase]
    split_ifs with hhex
    · exact .inr ⟨id, rfl, hhex⟩
    · exact .inl h
  | _ => exact .inl h

theorem Filed.step {m' : Machine} (h : m.Filed X) (he : Effect X m m' (m.deed X action))
    (hsafe : m.Unraced X action) : m'.Filed X := by
  -- a file that something relies on is not the one removed
  have hkeep : ∀ {hex : String}, (m.store.files[hex]?).isSome →
      (m.store.index.chunkLocations[hex]?).isSome ∨ (∃ id, id.toHex = hex ∧ m.InFlight X id) ∨
        (∀ id, m.deed X action ≠ .unlinked id) → (m'.store.files[hex]?).isSome := by
    intro hex hf hrely
    rw [he.files]
    refine (file_after hf).resolve_right ?_
    rintro ⟨id, hd, rfl⟩
    have hsafe := hsafe id (by rw [hd]; rfl)
    rcases hrely with hloc | ⟨id', hid, hin⟩ | hnot
    · rw [Option.isNone_iff_eq_none.1 hsafe.1] at hloc
      cases hloc
    · exact hsafe.2 (ChunkId.toHex_injective hid ▸ hin)
    · exact hnot id hd
  constructor
  · intro hex loc hloc
    have hsome : ((Deed.index m.store.index (m.deed X action)).chunkLocations[hex]?).isSome := by
      rw [← he.index, hloc]
      rfl
    rcases indexed_after hsome with hold | ⟨id, path, hd, rfl⟩
    · obtain ⟨loc', hloc'⟩ := Option.isSome_iff_exists.1 hold
      exact hkeep (h.indexed hex loc' hloc') (.inl hold)
    · have hin := deed_referenced hd
      exact hkeep (h.held id hin) (.inr (.inl ⟨id, rfl, hin⟩))
  · intro id hid
    rcases he.inFlight id hid with hin | hd | ⟨data, hd⟩
    · exact hkeep (h.held id hin) (.inr (.inl ⟨id, rfl, hin⟩))
    · exact hkeep (deed_found hd) (.inr (.inr (by simp [hd])))
    · rw [he.files, hd]
      simp [Deed.files]

/-! ## Complete objects -/

theorem deleting_iff {key : String} : m.Deleting key ↔
    ∃ (a : Nat) (agent : Agent), m.agents[a]? = some agent ∧ agent.deleting? = some key :=
  FinMap.exists_mem_toList (p := fun agent => Agent.deleting? agent = some key)

/-- The chunks of an object that is not being deleted are indexed. -/
theorem Balanced.indexed (h : m.Balanced) {key : String} {manifest : MediaManifest}
    (hm : m.store.index.manifests[key]? = some manifest) (hdel : ¬ m.Deleting key) {id : ChunkId}
    (hid : id ∈ manifest.chunks) : 0 < m.store.index.refCount id := by
  have hpos := List.count_pos_iff.2 hid
  have hexact := h.exact id
  by_cases hclaim : ∃ (a : Nat) (agent : Agent), m.agents[a]? = some agent ∧ agent.claim = some key
  · -- a rename is about to remove it: its chunks are those of the manifest under the new key
    obtain ⟨a, agent, ha, hk⟩ := hclaim
    have hknows := h.knows a agent ha
    cases agent with
    | removingOld fromKey toKey new =>
      cases hk
      obtain ⟨hne, hto, old, hold, hchunks⟩ := hknows
      rw [hm] at hold
      cases hold
      have h1 := h.unclaimed hto (fun b agent' hb hk' => ?_) id
      · rw [← hchunks] at h1
        omega
      · have hb' := Agent.ahead_of_claim (h.knows b agent' hb)
        rw [hk'] at hb'
        have h2 := h.locked b agent' hb _ hb'.1
        rw [h.locked a _ ha _ (to_mem_locks key toKey)] at h2
        cases h2
        rw [ha] at hb
        cases hb
        exact hne (Option.some.inj hk')
    | releasing why chunks =>
      cases why with
      | deleted k v => exact absurd (deleting_iff.2 ⟨a, _, ha, hk⟩) hdel
      | _ => cases hk
    | unlinking why chunk chunks =>
      cases why with
      | deleted k v => exact absurd (deleting_iff.2 ⟨a, _, ha, hk⟩) hdel
      | _ => cases hk
    | removing k v => exact absurd (deleting_iff.2 ⟨a, _, ha, hk⟩) hdel
    | _ => cases hk
  · have h1 := h.unclaimed hm (fun a agent ha hk => hclaim ⟨a, agent, ha, hk⟩) id
    omega

theorem Filed.complete (h : m.Filed X) (hb : m.Balanced) : m.Complete m.Deleting := by
  intro key manifest hm hdel id hid
  obtain ⟨loc, hloc⟩ := indexed_of_refCount (hb.indexed hm hdel hid)
  exact h.indexed _ loc hloc

/-- A manifest gets visible when it is put. -/
theorem manifest_after {s : IndexState} {deed : Deed} {key : String} {manifest : MediaManifest}
    (h : (deed.index s).manifests[key]? = some manifest) :
    s.manifests[key]? = some manifest ∨ deed = .put manifest := by
  cases deed with
  | put m1 =>
    simp only [Deed.index, Deed.appended?, Option.elim_some, applyEntry, FinMap.get_insert] at h
    split_ifs at h
    · exact .inr (congrArg Deed.put (Option.some.inj h))
    · exact .inl h
  | removed key1 =>
    simp only [Deed.index, Deed.appended?, Option.elim_some, applyEntry, FinMap.get_erase] at h
    split_ifs at h
    exact .inl h
  | dropped id =>
    rw [index_dropped, dropRef_manifests] at h
    exact .inl h
  | _ => exact .inl h

theorem Complete.step {m' : Machine} (h : m.Complete fun _ => False) (hb : m.Balanced)
    (hf : m.Filed X) (he : Effect X m m' (m.deed X action)) (hunraced : m.Unraced X action)
    (hspared : m.Spared X action) : m'.Complete fun _ => False := by
  intro key manifest hm _ id hid
  rw [he.index] at hm
  rw [he.files]
  rcases manifest_after hm with hold | hput
  · refine (file_after (h key manifest hold (fun h => h) id hid)).resolve_right ?_
    rintro ⟨id', hd, hhex⟩
    cases ChunkId.toHex_injective hhex
    have hunraced := hunraced id (by rw [hd]; rfl)
    have hspared := hspared id (by rw [hd]; rfl)
    by_cases hdel : m.Deleting key
    · obtain ⟨p, hp, hkey⟩ := hdel
      exact hspared p hp key hkey manifest hold hid
    · obtain ⟨loc, hloc⟩ := indexed_of_refCount (hb.indexed hold hdel hid)
      have hnone := Option.isNone_iff_eq_none.1 hunraced.1
      rw [hloc] at hnone
      cases hnone
  · have hfile : (m.store.files[id.toHex]?).isSome := by
      rcases deed_put hb hput with hpos | ⟨key', old, hold, hchunks⟩
      · obtain ⟨loc, hloc⟩ := indexed_of_refCount (hpos id hid)
        exact hf.indexed _ loc hloc
      · exact h key' old hold (fun h => h) id (hchunks ▸ hid)
    refine (file_after hfile).resolve_right ?_
    rintro ⟨id', hd, -⟩
    rw [hput] at hd
    cases hd

/-! ## Runs -/

theorem Filed.run (hb : m.Balanced) (h : m.Filed X) : ∀ {actions : List Action},
    Throughout X (Unraced X) m actions → (m.run X actions).Filed X := by
  intro actions
  induction actions generalizing m with
  | nil => exact fun _ => h
  | cons action actions ih =>
    intro hall
    exact ih (hb.step action) (h.step (step_effect hb.attached hb.calm action) hall.1) hall.2

theorem Complete.run (hb : m.Balanced) (hf : m.Filed X) (h : m.Complete fun _ => False) :
    ∀ {actions : List Action},
      Throughout X (fun m action => m.Unraced X action ∧ m.Spared X action) m actions →
      (m.run X actions).Complete fun _ => False := by
  intro actions
  induction actions generalizing m with
  | nil => exact fun _ => h
  | cons action actions ih =>
    intro hall
    have he := step_effect (X := X) hb.attached hb.calm action
    exact ih (hb.step action) (hf.step he hall.1.1) (h.step hb hf he hall.1.1 hall.1.2) hall.2

theorem Filed.start (engine : StorageEngine) (dataDir : String) :
    (Machine.start engine dataDir).Filed X where
  indexed hex loc h := by simp [Machine.start, Store.emptyDir, IndexState.empty] at h
  held id h := by
    obtain ⟨a, agent, ha, -⟩ := inFlight_iff.1 h
    simp [Machine.start] at ha

end Machine

/-- **Objects keep their chunk files.** In a run whose removals are all unraced, every chunk of an
object that is not being deleted has its file; if they also spare the objects that are being deleted,
every chunk of every visible object has. -/
theorem objects_complete (X : Crates) (engine : StorageEngine) (dataDir : String)
    (actions : List Action) :
    let start := Machine.start engine dataDir
    let m := start.run X actions
    (Machine.Throughout X (Machine.Unraced X) start actions → m.Complete m.Deleting) ∧
    (Machine.Throughout X (fun m action => m.Unraced X action ∧ m.Spared X action) start actions →
      m.Complete fun _ => False) := by
  intro start m
  have hb : start.Balanced := .start engine dataDir
  have hf : start.Filed X := .start engine dataDir
  have hc : start.Complete fun _ => False := fun key manifest h => by
    simp [start, Machine.start, Store.emptyDir, IndexState.empty] at h
  exact ⟨fun h => (hf.run hb h).complete (hb.run actions), fun h => hc.run hb hf h⟩

/-- `n` steps of an agent. -/
def advances (a n : Nat) : List Action := List.replicate n (.advance a)

/-- An object is overwritten; the removal of the old version's chunk comes last. -/
def overwriteRun : List Action :=
  [.begin 0 "a" "" [], .write 0 [1]] ++ advances 0 5 ++ [.finish 0] ++ advances 0 5
    ++ [.begin 1 "a" "" [], .write 1 [2]] ++ advances 1 5 ++ [.finish 1] ++ advances 1 7

theorem objects_complete_overwritten :
    ((Machine.start ⟨1, 0, false⟩ "data").run .reference overwriteRun).Complete fun _ => False :=
  (objects_complete .reference ⟨1, 0, false⟩ "data" overwriteRun).2 (by decide +kernel)

/-- A second upload finds the file of the chunk; then the object that holds the only reference is
deleted, and the upload goes on. -/
def lostChunkRun : List Action :=
  [.begin 0 "a" "" [], .write 0 [1]] ++ advances 0 5 ++ [.finish 0] ++ advances 0 5
    ++ [.begin 1 "b" "" [], .write 1 [1]] ++ advances 1 2 ++ [.delete 2 "a"] ++ advances 2 6
    ++ advances 1 2 ++ [.finish 1] ++ advances 1 5

/-- When all calls have returned an object is visible without its file. -/
theorem object_incomplete :
    ∃ actions, ((Machine.start ⟨1, 0, false⟩ "data").run .reference actions).agents.toList = [] ∧
      ¬ ((Machine.start ⟨1, 0, false⟩ "data").run .reference actions).Complete fun _ => False := by
  refine ⟨lostChunkRun, by decide +kernel, fun h => ?_⟩
  have hlost : ∃ manifest ∈ (((Machine.start ⟨1, 0, false⟩ "data").run .reference
      lostChunkRun).store.index.manifests["b"]?), ∃ id ∈ manifest.chunks,
      ¬ (((Machine.start ⟨1, 0, false⟩ "data").run .reference
        lostChunkRun).store.files[id.toHex]?).isSome := by decide +kernel
  obtain ⟨manifest, hm, id, hid, hnot⟩ := hlost
  exact hnot (h "b" manifest hm (fun h => h) id hid)

end KaidaDB
