import KaidaDB.Crates.Reference
import KaidaDB.Storage.Proof.Interrupted

/-!
# Deleting again after a delete that stopped

A delete drops the references of an object before its manifest goes, so a delete that stops in
between leaves the manifest with references already dropped, and the next delete of the key drops
them once more. `delete_retry_iff`: other objects come to harm exactly if one of their chunks has too
few references to spare for those dropped before the stop.
-/

namespace KaidaDB

open Std Effects

variable {X : Crates} {D : Set Bytes} {logged : Bool} {c : View}

/-- From `w` to `after` objects other than `key` have come to no harm. -/
structure HarmsNoOther (X : Crates) (w after : World) (key : String) : Prop where
  /-- A read, with any settings, returns what it did. -/
  readable : ∀ (other : String) (engine : StorageEngine), other ≠ key →
    returned (engine.read X other after.store) = returned (engine.read X other w.store)
  counted : ∀ (other : String) m, other ≠ key → after.store.index.manifests[other]? = some m →
    ∀ id ∈ m.chunks, after.store.index.occurrences id ≤ after.store.index.refCount id

/-- The stop comes after the manifest is gone, or what was dropped before it was to spare for every
chunk of another object. -/
def RetrySafe (s : IndexState) (durability : Durability) (stop : Stop) (key : String) : Prop :=
  .manifest ∈ made durability stop.io (deleteSteps s key) ∨
    ∀ (other : String) m, other ≠ key → s.manifests[other]? = some m → ∀ id ∈ m.chunks,
      s.occurrences id + (made durability stop.io (deleteSteps s key)).count (.drop id)
        ≤ s.refCount id

/-- Every reference is dropped once. -/
theorem count_releaseSteps (id : ChunkId) : ∀ (ids : List ChunkId) (refs : ChunkId → Nat),
    (releaseSteps refs ids).count (.drop id) = ids.count id
  | [], _ => rfl
  | a :: ids, refs => by
    have hstep : (releaseStep refs a).count (.drop id) = [a].count id := by
      rw [releaseStep]
      split_ifs <;> simp [List.count_cons]
    rw [releaseSteps_cons, List.count_append, count_releaseSteps id ids, hstep,
      ← List.count_append, List.singleton_append]

theorem manifest_mem_made {d : Durability} {io : Stream' IoPlan} {steps : List DiskStep}
    (hnone : .manifest ∉ steps) (h : .manifest ∈ made d io (steps ++ [.manifest])) :
    made d io (steps ++ [.manifest]) = steps ++ [.manifest] := by
  by_cases hall : made d io steps = steps
  · rw [made_append hall] at h ⊢
    rcases List.mem_append.1 h with h | h
    · exact absurd h hnone
    · rw [made] at h ⊢
      split_ifs at h ⊢ with hf
      · simp at h
      · rfl
  · rw [made_append_of_ne _ hall] at h
    exact absurd ((made_initial _ _ _).subset h) hnone

/-- A delete in a calm view, sound or not. -/
theorem does_delete_again (hc : c.Calm) {key : String} {m : MediaManifest}
    (h : c.index.manifests[key]? = some m) :
    ∃ c', Does (lens X logged) (StorageEngine.delete X key) c (.ok true) c' ∧
      Dropped (fun a => m.chunks.count a) c c' ∧
      c'.index.manifests = c.index.manifests.erase key := by
  let c1 := m.chunks.foldl View.released c
  have hc1 : c1.Calm := calm_releases _ hc
  refine ⟨c1.applied (.deleteManifest key), ?_, (Dropped.releases m.chunks c).frame rfl rfl,
    congrArg (fun t => t.erase key) (releases_manifests _ _)⟩
  refine Does.bind does_getManifest ?_
  rw [h]
  refine Does.bind (does_releases does_releaseDeleted m.chunks hc) ?_
  exact Does.bind (does_deleteManifest (hc1.appends _) hc1.compact) (Does.pure true)

/-- Where all that was dropped was to spare, nothing of another object is touched. -/
theorem harmsNoOther_iff {w after : World} {key : String} {d : ChunkId → Nat}
    (hd : Dropped d w.store.view after.store.view)
    (hman : after.store.index.manifests = w.store.index.manifests.erase key) :
    HarmsNoOther X w after key ↔ ∀ (other : String) m, other ≠ key →
      w.store.index.manifests[other]? = some m → ∀ id ∈ m.chunks,
        after.store.index.occurrences id + d id ≤ w.store.index.refCount id := by
  have hget : ∀ other : String, other ≠ key →
      after.store.index.manifests[other]? = w.store.index.manifests[other]? := by
    intro other hne
    rw [hman, FinMap.get_erase, if_neg (Ne.symm hne)]
  have hpos : ∀ {other : String} {m}, after.store.index.manifests[other]? = some m →
      ∀ id ∈ m.chunks, 0 < after.store.index.occurrences id := fun hm id hid =>
    Nat.lt_of_lt_of_le (List.count_pos_iff.2 hid) (count_le_occurrences hm id)
  have hrefs : ∀ id, after.store.index.refCount id = w.store.index.refCount id - d id := hd.refs
  constructor
  · intro h other m hne hm id hid
    rw [← hget other hne] at hm
    have := h.counted other m hne hm id hid
    have := hpos hm id hid
    have := hrefs id
    omega
  · intro h
    have hcounted : ∀ {other : String} {m}, other ≠ key →
        after.store.index.manifests[other]? = some m → ∀ id ∈ m.chunks,
        after.store.index.occurrences id ≤ after.store.index.refCount id := by
      intro other m hne hm id hid
      have := h other m hne (hget other hne ▸ hm) id hid
      have := hrefs id
      omega
    refine ⟨fun other engine hne => (read_agrees engine (hget other hne) ?_).returned_eq,
      fun other m hne hm => hcounted hne hm⟩
    intro m hm id hid
    have hm' := (hget other hne).trans hm
    exact congrArg (Option.map ChunkFile.bytes)
      (hd.files id (Nat.lt_of_lt_of_le (hpos hm' id hid) (hcounted hne hm' id hid)))

/-- The next delete of a world after a stop. -/
theorem step_delete {w : World} (hw : (lens X false).healthy w.store)
    (hc : w.store.view.Calm) (key : String) :
    ∃ d, Dropped d w.store.view (w.step X (.delete key)).1.store.view ∧
      (w.step X (.delete key)).1.store.index.manifests = w.store.index.manifests.erase key ∧
      ∀ id, d id = (w.store.index.manifests[key]?).elim 0 (fun m => m.chunks.count id) := by
  cases hm : w.store.index.manifests[key]? with
  | none =>
    have hdoes : Does (lens X false) _ w.store.view _ _ := does_delete_none hm
    obtain ⟨st, h1, -, h3⟩ := onEngine_of_does hw hdoes .deleted
    rw [World.step, h1]
    exact ⟨fun _ => 0, h3 ▸ Dropped.refl rfl rfl,
      (congrArg (fun c => c.index.manifests) h3).trans (FinMap.erase_of_none hm).symm,
      fun _ => rfl⟩
  | some m =>
    obtain ⟨c', hdoes, hd, hman⟩ := @does_delete_again X false _ hc _ _ hm
    obtain ⟨st, h1, -, h3⟩ := onEngine_of_does hw hdoes .deleted
    rw [World.step, h1]
    exact ⟨fun a => m.chunks.count a, h3 ▸ hd,
      (congrArg (fun c => c.index.manifests) h3).trans hman, fun _ => rfl⟩

/-- A delete that does not stop harms nothing where every chunk has its references. -/
theorem delete_harmsNoOther {w : World} (hw : (lens X false).healthy w.store)
    (hc : w.store.view.Calm)
    (hle : ∀ id, w.store.index.occurrences id ≤ w.store.index.refCount id) (key : String) :
    HarmsNoOther X w (w.step X (.delete key)).1 key := by
  obtain ⟨d, hd, hman, hval⟩ := step_delete hw hc key
  refine (harmsNoOther_iff hd hman).2 fun other m _ _ id _ => ?_
  have hocc := occurrences_delete w.store.index key id
  have hsame : (w.step X (.delete key)).1.store.index.occurrences id
      = (applyEntry w.store.index (.deleteManifest key)).occurrences id := by
    rw [IndexState.occurrences, hman]
    rfl
  have := hle id
  rw [hsame, hval id]
  omega

/-- How often a chunk occurs in the object that is deleted. -/
def ownCount (s : IndexState) (key : String) (id : ChunkId) : Nat :=
  (s.manifests[key]?).elim 0 fun m => m.chunks.count id

/-- A delete that reached the manifest has dropped every reference of its object. -/
theorem count_made_deleteSteps {s : IndexState} {key : String} {d : Durability}
    {io : Stream' IoPlan} (h : .manifest ∈ made d io (deleteSteps s key)) (id : ChunkId) :
    (made d io (deleteSteps s key)).count (.drop id) = ownCount s key id := by
  cases hm : s.manifests[key]? with
  | none =>
    have hsteps : deleteSteps s key = [] := by rw [deleteSteps, hm]
    rw [hsteps] at h
    exact absurd h List.not_mem_nil
  | some m =>
    have hsteps : deleteSteps s key = releaseSteps s.refCount m.chunks ++ [.manifest] := by
      rw [deleteSteps, hm]
    rw [hsteps] at h ⊢
    rw [manifest_mem_made (manifest_not_mem_releaseSteps _ _) h, List.count_append,
      count_releaseSteps, ownCount, hm]
    simp

/-- What a delete that stops has done by then. -/
theorem interrupted_delete (hX : X.Lawful) {w : World} (hh : (lens X true).healthy w.store)
    {need : ChunkId → Int} (hs : Sound X D w.store.view need) (hneed : ∀ a, 0 ≤ need a)
    (key : String) (stop : Stop) :
    let done := made w.store.durability stop.io (deleteSteps w.store.index key)
    let w1 := w.interrupted X stop (.delete key)
    (lens X false).healthy w1.store ∧ w1.store.view.Calm ∧
      Dropped (fun a => done.count (.drop a)) w.store.view w1.store.view ∧
      w1.store.index.manifests = (if .manifest ∈ done then w.store.index.manifests.erase key
        else w.store.index.manifests) := by
  let c : View := { w.store.view with io := stop.io }
  have hsc : Sound X D c need := hs.frame rfl rfl
  have hcall : ∀ v : World, v.step X (.delete key)
      = v.onEngine (StorageEngine.delete X key) .deleted := fun _ => rfl
  obtain ⟨c', ⟨hd, hman⟩, hh', hcalm, hidx, hfiles⟩ := interrupted_of_does hX hh hcall stop (P := fun c' =>
      Dropped (fun a => (c.made (deleteSteps c.index key)).count (.drop a)) c c' ∧
        c'.index.manifests = (if .manifest ∈ c.made (deleteSteps c.index key) then
          c.index.manifests.erase key else c.index.manifests)) fun logged hio => by
      cases hm : c.index.manifests[key]? with
      | none =>
        have hsteps : deleteSteps c.index key = [] := by rw [deleteSteps, hm]
        refine ⟨_, _, does_delete_none hm, ?_⟩
        rw [hsteps]
        exact ⟨Dropped.refl rfl rfl, rfl⟩
      | some m =>
        obtain ⟨r, c', h1, h2, -, h4⟩ := does_delete_made hsc hneed hm hio
        exact ⟨r, c', h1, h2, h4⟩
  refine ⟨hh', hcalm, ?_, (congrArg IndexState.manifests hidx).trans hman⟩
  have hd' : Dropped _ c (w.interrupted X stop (.delete key)).store.view :=
    hd.frame (congrArg IndexState.chunkLocations hidx) hfiles
  exact ⟨hd'.refs, hd'.files⟩

theorem Sim.occurrences_le {w : World} {s : Spec} (h : Sim X D w s)
    (id : ChunkId) : w.store.index.occurrences id ≤ w.store.index.refCount id := by
  have h1 : (w.store.index.occurrences id : Int) + _ ≤ w.store.index.refCount id :=
    h.sound.counts id
  have h2 := needOf_nonneg w.sessions id
  omega

/-- **A delete that stopped can be made again without harm exactly under `RetrySafe`.** -/
theorem delete_retry_iff (hX : X.Lawful) {w : World} (hw : w.Reachable X) (key : String)
    (stop : Stop) :
    HarmsNoOther X w ((w.interrupted X stop (.delete key)).step X (.delete key)).1 key
      ↔ RetrySafe w.store.index w.store.durability stop key := by
  obtain ⟨s, h⟩ := hw.sim hX
  obtain ⟨hh, hcalm, hd1, hman1⟩ :=
    interrupted_delete hX h.healthy h.sound (needOf_nonneg _) key stop
  obtain ⟨d2, hd2, hman2, hval⟩ := step_delete hh hcalm key
  rw [hman1] at hman2 hval
  unfold RetrySafe
  have hcount := @count_made_deleteSteps w.store.index key
    w.store.durability stop.io
  generalize made w.store.durability stop.io (deleteSteps w.store.index key) = done at *
  have hman : ((w.interrupted X stop (.delete key)).step X (.delete key)).1.store.index.manifests
      = w.store.index.manifests.erase key := by
    rw [hman2]
    split_ifs
    · exact FinMap.erase_of_none (by simp)
    · rfl
  have hocc : ∀ id, ((w.interrupted X stop (.delete key)).step X
      (.delete key)).1.store.index.occurrences id + ownCount w.store.index key id
        = w.store.index.occurrences id := by
    intro id
    rw [IndexState.occurrences, hman]
    exact occurrences_delete w.store.index key id
  rw [harmsNoOther_iff (hd1.trans hd2) hman]
  by_cases hdone : .manifest ∈ done
  · -- the second delete finds nothing
    refine iff_of_true (fun other m _ _ id _ => ?_) (.inl hdone)
    rw [if_pos hdone] at hval
    have h1 := hval id
    rw [FinMap.get_erase, if_pos rfl, Option.elim_none] at h1
    have := hcount hdone id
    have := hocc id
    have := h.occurrences_le id
    omega
  · rw [if_neg hdone] at hval
    rw [or_iff_right hdone]
    have hsum : ∀ id, ((w.interrupted X stop (.delete key)).step X
        (.delete key)).1.store.index.occurrences id + (done.count (.drop id) + d2 id)
          = w.store.index.occurrences id + done.count (.drop id) := by
      intro id
      have h1 : d2 id = ownCount w.store.index key id := hval id
      have h2 := hocc id
      omega
    simp only [hsum]

/-! ## Two objects with one chunk -/

/-- Two objects with the same contents. -/
def twinCalls : List Call := [.store "a" [1] "" [], .store "b" [1] "" []]

def twins : World :=
  ((World.fresh ⟨1, 0, false⟩ "data" (Stream'.const .ok)).run Crates.reference twinCalls).1

theorem twins_reachable : twins.Reachable Crates.reference :=
  ⟨⟨1, 0, false⟩, "data", twinCalls, by decide, by simp [twinCalls, Call.Sized], rfl⟩

/-- The delete of one of them drops its reference and fails to write the entry for its manifest. -/
theorem delete_retry_iff_twins :
    HarmsNoOther Crates.reference twins
        ((twins.interrupted Crates.reference (.ioError 1 (.write 0)) (.delete "a")).step
          Crates.reference (.delete "a")).1 "a"
      ↔ RetrySafe twins.store.index twins.store.durability (.ioError 1 (.write 0)) "a" :=
  delete_retry_iff Crates.reference_lawful twins_reachable "a" (.ioError 1 (.write 0))

/-- Deleting it again takes the chunk of the other one. -/
theorem delete_retry_harms :
    twins.Reachable Crates.reference ∧ ¬ HarmsNoOther Crates.reference twins
        ((twins.interrupted Crates.reference (.ioError 1 (.write 0)) (.delete "a")).step
          Crates.reference (.delete "a")).1 "a" := by
  refine ⟨twins_reachable, fun h => ?_⟩
  have hread := h.readable "b" ⟨1, 0, false⟩ (by decide)
  revert hread
  decide +kernel

end KaidaDB
