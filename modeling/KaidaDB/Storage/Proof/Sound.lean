import KaidaDB.Lib.Slices
import KaidaDB.Storage.Proof.Steps

/-!
# References, files and chunks

`Sound X D c need`: in the view `c` every chunk has at least as many references as it occurs in
manifests and `need` asks for besides, every indexed chunk has its file, and every file holds a
chunk of `D` under the id of its contents. `need` counts what open sessions hold, and negatively what
a call in progress has released ahead of its manifest; each transition of the view changes it
by what the transition does to references (`Sound.added`, `Sound.released`, `Sound.put`,
`Sound.removed`). A chunk that a manifest lists can then be read (`Sound.readable`).
-/

namespace KaidaDB

open Std

variable {X : Crates} {D : Set Bytes} {c : View}

/-- How often a chunk occurs in the manifests. -/
def IndexState.occurrences (s : IndexState) (id : ChunkId) : Nat :=
  FinMap.total (fun m => m.chunks.count id) s.manifests

structure Sound (X : Crates) (D : Set Bytes) (c : View) (need : ChunkId → Int) : Prop where
  counts : ∀ id, (c.index.occurrences id : Int) + need id ≤ c.index.refCount id
  keyed : c.index.Keyed
  present : ∀ (hex : String) loc, c.index.chunkLocations[hex]? = some loc → (c.files[hex]?).isSome
  encoded : ∀ (hex : String) f, c.files[hex]? = some f →
    ∃ d ∈ D, d.length ≤ isizeMax ∧ hex = (ChunkId.fromData X d).toHex ∧ f.bytes = encodeChunk X d

/-! ## Counts after an entry -/

theorem toHex_ne {a b : ChunkId} (h : a ≠ b) : a.toHex ≠ b.toHex := fun he =>
  h (ChunkId.toHex_injective he)

theorem refCount_put (s : IndexState) (a id : ChunkId) (loc : ChunkLocation) :
    (applyEntry s (.putChunkLocation a.toHex loc)).refCount id
      = if a = id then loc.refCount else s.refCount id := by
  by_cases h : a = id
  · subst h
    simp [IndexState.refCount, applyEntry]
  · simp [IndexState.refCount, applyEntry, toHex_ne h, h]

theorem refCount_delete (s : IndexState) (a id : ChunkId) :
    (applyEntry s (.deleteChunkLocation a.toHex)).refCount id
      = if a = id then 0 else s.refCount id := by
  by_cases h : a = id
  · subst h
    simp [IndexState.refCount, applyEntry]
  · simp [IndexState.refCount, applyEntry, toHex_ne h, h]

theorem refCount_addedRef (s : IndexState) (a : ChunkId) (path : String) :
    (addedRef s a path).refCount = s.refCount a + 1 := by
  unfold addedRef IndexState.refCount
  cases s.chunkLocations[a.toHex]? <;> rfl

/-- The index after a reference was dropped. -/
def IndexState.dropRef (s : IndexState) (id : ChunkId) : IndexState :=
  match droppedRef s id with
  | some op => applyEntry s op.entry
  | none => s

/-- **Dropping a reference counts down by one, and not below 0.** -/
theorem refCount_dropRef (s : IndexState) (a id : ChunkId) :
    (s.dropRef a).refCount id = if a = id then s.refCount id - 1 else s.refCount id := by
  unfold IndexState.dropRef droppedRef
  cases hloc : s.chunkLocations[a.toHex]? with
  | none =>
    have h0 : s.refCount a = 0 := by rw [IndexState.refCount, hloc]; rfl
    simp only [Option.map_none]
    split_ifs with h
    · subst h; omega
    · rfl
  | some loc =>
    have h1 : s.refCount a = loc.refCount := by rw [IndexState.refCount, hloc]; rfl
    simp only [Option.map_some]
    split_ifs with hle h h
    · subst h
      rw [EntryOp.entry, refCount_delete, if_pos rfl]
      omega
    · rw [EntryOp.entry, refCount_delete, if_neg h]
    · subst h
      rw [EntryOp.entry, refCount_put, if_pos rfl, h1]
    · rw [EntryOp.entry, refCount_put, if_neg h]

theorem dropRef_manifests (s : IndexState) (id : ChunkId) :
    (s.dropRef id).manifests = s.manifests := by
  unfold IndexState.dropRef droppedRef
  cases s.chunkLocations[id.toHex]? with
  | none => rfl
  | some loc =>
    simp only [Option.map_some]
    split_ifs <;> rfl

/-- An entry is removed with the last reference only. -/
theorem lastRef_iff (s : IndexState) (id : ChunkId) :
    lastRef s id = true ↔ (s.chunkLocations[id.toHex]?).isSome ∧ s.refCount id ≤ 1 := by
  unfold lastRef IndexState.refCount
  cases s.chunkLocations[id.toHex]? <;> simp

theorem dropRef_locations (s : IndexState) (id : ChunkId) (hex : String) :
    ((s.dropRef id).chunkLocations[hex]?).isSome
      ↔ (s.chunkLocations[hex]?).isSome ∧ ¬ (lastRef s id = true ∧ hex = id.toHex) := by
  unfold IndexState.dropRef droppedRef lastRef
  cases hloc : s.chunkLocations[id.toHex]? with
  | none => simp
  | some loc =>
    simp only [Option.map_some, Option.any_some, decide_eq_true_eq]
    split_ifs with hle
    · simp only [EntryOp.entry, applyEntry, FinMap.get_erase]
      split_ifs with hx
      · simp [hx, hle]
      · simp [Ne.symm hx]
    · simp only [EntryOp.entry, applyEntry, FinMap.get_insert]
      split_ifs with hx
      · subst hx
        simp [hloc, hle]
      · simp [hle]

/-- No entry has count 0. -/
def IndexState.Counted (s : IndexState) : Prop :=
  ∀ (hex : String) loc, s.chunkLocations[hex]? = some loc → 0 < loc.refCount

theorem addedRef_counted {s : IndexState} (h : s.Counted) (id : ChunkId) (path : String) :
    (applyEntry s (.putChunkLocation id.toHex (addedRef s id path))).Counted := by
  intro hex loc hloc
  rw [applyEntry, FinMap.get_insert] at hloc
  split_ifs at hloc
  · cases hloc
    rw [refCount_addedRef]
    exact Nat.succ_pos _
  · exact h hex loc hloc

theorem dropRef_counted {s : IndexState} (h : s.Counted) (id : ChunkId) : (s.dropRef id).Counted := by
  intro hex loc hloc
  unfold IndexState.dropRef droppedRef at hloc
  cases hold : s.chunkLocations[id.toHex]? with
  | none =>
    rw [hold] at hloc
    exact h hex loc hloc
  | some old =>
    simp only [hold, Option.map_some] at hloc
    split_ifs at hloc with hle
    · simp only [EntryOp.entry, applyEntry, FinMap.get_erase] at hloc
      split_ifs at hloc
      exact h hex loc hloc
    · simp only [EntryOp.entry, applyEntry, FinMap.get_insert] at hloc
      split_ifs at hloc
      · cases hloc
        show 0 < old.refCount - 1
        omega
      · exact h hex loc hloc

/-! ## Occurrences after a change of the manifests -/

theorem occurrences_put (s : IndexState) (m : MediaManifest) (id : ChunkId) :
    (applyEntry s (.putManifest m)).occurrences id
        + (s.manifests[m.key]?).elim 0 (fun old => old.chunks.count id)
      = s.occurrences id + m.chunks.count id :=
  FinMap.total_insert (fun m : MediaManifest => m.chunks.count id) s.manifests m.key m

theorem occurrences_delete (s : IndexState) (key : String) (id : ChunkId) :
    (applyEntry s (.deleteManifest key)).occurrences id
        + (s.manifests[key]?).elim 0 (fun old => old.chunks.count id)
      = s.occurrences id :=
  FinMap.total_erase (fun m : MediaManifest => m.chunks.count id) s.manifests key

theorem count_le_occurrences {s : IndexState} {key : String} {m : MediaManifest}
    (h : s.manifests[key]? = some m) (id : ChunkId) : m.chunks.count id ≤ s.occurrences id :=
  FinMap.le_total (fun m : MediaManifest => m.chunks.count id) h

/-! ## Transitions -/

theorem Sound.weaken {need need' : ChunkId → Int} (h : Sound X D c need)
    (hle : ∀ id, need' id ≤ need id) : Sound X D c need' where
  counts id := by
    have := h.counts id
    have := hle id
    omega
  keyed := h.keyed
  present := h.present
  encoded := h.encoded

/-- The plans to come and the clock do not matter. -/
theorem Sound.frame {need : ChunkId → Int} {c' : View} (h : Sound X D c need)
    (hi : c'.index = c.index) (hf : c'.files = c.files) : Sound X D c' need where
  counts := hi ▸ h.counts
  keyed := hi ▸ h.keyed
  present := hi ▸ hf ▸ h.present
  encoded := hf ▸ h.encoded

/-- A chunk is indexed as soon as anything refers to it. -/
theorem Sound.indexed {need : ChunkId → Int} (h : Sound X D c need) {id : ChunkId}
    (hpos : 0 < (c.index.occurrences id : Int) + need id) :
    (c.index.chunkLocations[id.toHex]?).isSome := by
  have hc := h.counts id
  cases hloc : c.index.chunkLocations[id.toHex]? with
  | some loc => rfl
  | none =>
    have h0 : c.index.refCount id = 0 := by rw [IndexState.refCount, hloc]; rfl
    omega

theorem written_index (c : View) (id : ChunkId) (d : Bytes) :
    (c.written X id d).index = c.index := by
  unfold View.written
  split_ifs <;> rfl

/-- A chunk written under the id of its contents. -/
theorem Sound.written {need : ChunkId → Int} (h : Sound X D c need) {d : Bytes} (hd : d ∈ D)
    (hlen : d.length ≤ isizeMax) :
    Sound X D (c.written X (ChunkId.fromData X d) d) need ∧
      ((c.written X (ChunkId.fromData X d) d).files[(ChunkId.fromData X d).toHex]?).isSome := by
  unfold View.written
  split_ifs with hc
  · exact ⟨h, FinMap.contains_iff _ _ |>.1 hc⟩
  · refine ⟨⟨h.counts, h.keyed, fun hex loc hl => ?_, fun hex f hf => ?_⟩, by simp⟩
    · simp only [FinMap.get_insert]
      split_ifs
      · rfl
      · exact h.present hex loc hl
    · simp only [FinMap.get_insert] at hf
      split_ifs at hf with hx
      · cases hf
        exact ⟨d, hd, hlen, hx.symm, rfl⟩
      · exact h.encoded hex f hf

/-- A reference taken on a chunk that has its file. -/
theorem Sound.added {need : ChunkId → Int} (h : Sound X D c need) {id : ChunkId} {path : String}
    (hf : (c.files[id.toHex]?).isSome) :
    Sound X D (c.applied (.putChunkLocation id.toHex (addedRef c.index id path)))
      (fun a => need a + if id = a then 1 else 0) where
  counts a := by
    have hc := h.counts a
    show ((c.index.occurrences a : Int) + _ ≤ ((applyEntry c.index _).refCount a : Nat))
    rw [refCount_put, refCount_addedRef]
    split_ifs with ha
    · subst ha
      push_cast
      omega
    · omega
  keyed := applyEntry_keyed h.keyed _
  present hex loc hl := by
    simp only [View.applied, applyEntry, FinMap.get_insert] at hl
    split_ifs at hl with hx
    · exact hx ▸ hf
    · exact h.present hex loc hl
  encoded := h.encoded

/-- The view after a reference was dropped, and the file with the last one. -/
def View.released (c : View) (id : ChunkId) : View :=
  if lastRef c.index id then { c with index := c.index.dropRef id }.unlinked id
  else { c with index := c.index.dropRef id }

theorem unlinked_files (c : View) (id : ChunkId) (hex : String) :
    (c.unlinked id).files[hex]? = if id.toHex = hex then none else c.files[hex]? := by
  unfold View.unlinked
  split_ifs with h hx hx
  · simp [hx]
  · simp [hx]
  · subst hx
    simpa using h
  · rfl

theorem unlinked_index (c : View) (id : ChunkId) : (c.unlinked id).index = c.index := by
  unfold View.unlinked
  split_ifs <;> rfl

theorem released_index (c : View) (id : ChunkId) : (c.released id).index = c.index.dropRef id := by
  unfold View.released
  split_ifs
  · rw [unlinked_index]
  · rfl

theorem released_files (c : View) (id : ChunkId) (hex : String) :
    (c.released id).files[hex]?
      = if lastRef c.index id = true ∧ id.toHex = hex then none else c.files[hex]? := by
  unfold View.released
  split_ifs with h1 h2 h2
  · rw [unlinked_files, if_pos h2.2]
  · rw [unlinked_files, if_neg fun hx => h2 ⟨h1, hx⟩]
  · exact absurd h2.1 h1
  · rfl

/-- A reference dropped. -/
theorem Sound.released {need : ChunkId → Int} (h : Sound X D c need) (id : ChunkId) :
    Sound X D (c.released id) (fun a => need a - if id = a then 1 else 0) where
  counts a := by
    have hc := h.counts a
    have hocc : (c.released id).index.occurrences a = c.index.occurrences a := by
      rw [IndexState.occurrences, released_index, dropRef_manifests]
      rfl
    rw [hocc, released_index, refCount_dropRef]
    split_ifs <;> omega
  keyed := by
    intro k m hm
    rw [released_index, dropRef_manifests] at hm
    exact h.keyed k m hm
  present hex loc hl := by
    rw [released_index] at hl
    obtain ⟨h1, h2⟩ := (dropRef_locations c.index id hex).1 (by rw [hl]; rfl)
    rw [released_files, if_neg fun hx => h2 ⟨hx.1, hx.2.symm⟩]
    obtain ⟨loc', hloc'⟩ := Option.isSome_iff_exists.1 h1
    exact h.present hex loc' hloc'
  encoded hex f hf := by
    rw [released_files] at hf
    split_ifs at hf
    exact h.encoded hex f hf

/-- A reference dropped while the file is still there. -/
theorem Sound.dropped (h : Sound X D c need) (id : ChunkId) :
    Sound X D { c with index := c.index.dropRef id } fun a => need a - if id = a then 1 else 0 where
  counts a := by
    have hc := h.counts a
    have hocc : (c.index.dropRef id).occurrences a = c.index.occurrences a := by
      rw [IndexState.occurrences, dropRef_manifests]
      rfl
    rw [hocc, refCount_dropRef]
    split_ifs <;> omega
  keyed := by
    intro k m hm
    rw [dropRef_manifests] at hm
    exact h.keyed k m hm
  present hex loc hl := by
    obtain ⟨h1, -⟩ := (dropRef_locations c.index id hex).1 (by rw [hl]; rfl)
    obtain ⟨loc', hloc'⟩ := Option.isSome_iff_exists.1 h1
    exact h.present hex loc' hloc'
  encoded := h.encoded

/-- A manifest put: the references held for it become its own, those of the one it replaces are
to be dropped. -/
theorem Sound.put {need : ChunkId → Int} (h : Sound X D c need) (m : MediaManifest) :
    Sound X D (c.applied (.putManifest m)) (fun a => need a - m.chunks.count a
      + (c.index.manifests[m.key]?).elim 0 (fun old => old.chunks.count a)) where
  counts a := by
    have hc := h.counts a
    have ho := occurrences_put c.index m a
    show ((applyEntry c.index (.putManifest m)).occurrences a : Int) + _ ≤ (c.index.refCount a : Nat)
    omega
  keyed := applyEntry_keyed h.keyed _
  present := h.present
  encoded := h.encoded

/-- A manifest removed: its references are to be dropped. -/
theorem Sound.removed {need : ChunkId → Int} (h : Sound X D c need) (key : String) :
    Sound X D (c.applied (.deleteManifest key)) (fun a => need a
      + (c.index.manifests[key]?).elim 0 (fun old => old.chunks.count a)) where
  counts a := by
    have hc := h.counts a
    have ho := occurrences_delete c.index key a
    show ((applyEntry c.index (.deleteManifest key)).occurrences a : Int) + _
      ≤ (c.index.refCount a : Nat)
    omega
  keyed := applyEntry_keyed h.keyed _
  present := h.present
  encoded := h.encoded

/-- **A chunk that anything refers to has its file.** -/
theorem Sound.readable {need : ChunkId → Int} (h : Sound X D c need) {id : ChunkId}
    (hpos : 0 < (c.index.occurrences id : Int) + need id) :
    ∃ f d, c.files[id.toHex]? = some f ∧ d ∈ D ∧ id = ChunkId.fromData X d ∧
      decodeChunk X f.bytes = .ok d := by
  obtain ⟨loc, hloc⟩ := Option.isSome_iff_exists.1 (h.indexed hpos)
  obtain ⟨f, hf⟩ := Option.isSome_iff_exists.1 (h.present _ loc hloc)
  obtain ⟨d, hd, hlen, hhex, hbytes⟩ := h.encoded _ f hf
  refine ⟨f, d, hf, hd, ChunkId.toHex_injective hhex, ?_⟩
  rw [hbytes]
  exact decodeChunk_encodeChunk X (by simp only [chunkHeaderSize, isizeMax] at *; omega)

end KaidaDB
