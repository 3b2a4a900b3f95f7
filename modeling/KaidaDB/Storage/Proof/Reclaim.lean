import KaidaDB.Storage.Proof.Counted
import KaidaDB.Storage.Proof.Crash
import KaidaDB.Storage.Proof.FileRules
import KaidaDB.Storage.Proof.Interrupted

/-!
# What garbage collection reclaims of abandoned uploads

A collection without grace leaves the files of the indexed chunks (`gc_files`), as all chunk files
have the names of ids. A session that was dropped, or that its process did not survive, has left the
references it took in the index, and nothing drops them again; a delete that its process did not
survive has left a manifest whose chunks are no longer indexed. So the collection leaves what visible
manifests list just when these chunks are those with a file and an entry (`gc_reclaims_iff`).

While appends leave whole lines or nothing, every entry has its file: this, and that the log rebuilds
the index, is kept by everything the engine does, at any point at which it may stop (`InStep`,
`Rebuilt`).
-/

namespace KaidaDB

open Std Effects

variable {X : Crates} {Q : Stream' IoPlan → Prop} {c : View}

/-! ## Files and index -/

/-- Plans of which none leaves part of a line or detaches the log. -/
structure Plans (Q : Stream' IoPlan → Prop) : Prop where
  clean : ∀ {io}, Q io → Clean true io
  tail : ∀ {io}, Q io → Q io.tail

theorem plans_clean : Plans (Clean true) := ⟨id, Clean.tail⟩

theorem plans_ok : Plans (· = Stream'.const IoPlan.ok) where
  clean h := h ▸ fun _ => ⟨by simp [IoPlan.ok], fun _ => .inl rfl⟩
  tail h := by subst h; rfl

theorem clean_stopsAfter (n : Nat) (compacts : Bool) : Clean true (stopsAfter n compacts) := by
  intro i
  have hi : (stopsAfter n compacts).get i = if i < n then .ok
      else if compacts then { IoPlan.stopped with compact := none } else .stopped := rfl
  rw [hi]
  split_ifs <;> simp [IoPlan.ok, IoPlan.stopped]

/-- Every indexed chunk has its file, and the plans are in `Q`. -/
structure InStep (Q : Stream' IoPlan → Prop) (c : View) : Prop where
  present : ∀ (hex : String) loc, c.index.chunkLocations[hex]? = some loc → (c.files[hex]?).isSome
  plans : Q c.io

/-- The store is `InStep`, and its log rebuilds the index. -/
abbrev Rebuilt (X : Crates) (Q : Stream' IoPlan → Prop) (s : Store) : Prop :=
  (lens X true).Holds (InStep Q) s

namespace InStep

theorem io (h : InStep Q c) {Q' : Stream' IoPlan → Prop} {io : Stream' IoPlan} (hio : Q' io) :
    InStep Q' { c with io := io } := ⟨h.present, hio⟩

variable (hQ : Plans Q)
include hQ

theorem tail (h : InStep Q c) : InStep Q { c with io := c.io.tail } := h.io (hQ.tail h.plans)

theorem appends (h : InStep Q c) (sync : Bool) : c.Appends sync ∨ c.FailsAppend true sync := by
  rcases (hQ.clean h.plans 0).2 rfl with hp | hp
  · exact .inl (.inl hp)
  · exact .inr (.inl ⟨0, hp, fun _ => rfl⟩)

theorem compact (h : InStep Q c) (i : Nat) : (c.io.get i).compact ≠ some .afterRename :=
  (hQ.clean h.plans i).1

/-- An entry for a manifest changes neither. -/
theorem manifest (h : InStep Q c) {e : LogEntry}
    (he : (applyEntry c.index e).chunkLocations = c.index.chunkLocations) :
    InStep Q (c.applied e) := by
  refine ⟨fun hex loc hloc => ?_, hQ.tail h.plans⟩
  have hold : (applyEntry c.index e).chunkLocations[hex]? = some loc := hloc
  rw [he] at hold
  exact h.present hex loc hold

/-- A chunk with a file may be indexed. -/
theorem located (h : InStep Q c) {id : ChunkId} {loc : ChunkLocation}
    (hfile : (c.files[id.toHex]?).isSome) :
    InStep Q (c.applied (.putChunkLocation id.toHex loc)) := by
  refine ⟨fun hex loc' hloc => ?_, hQ.tail h.plans⟩
  have hput : (c.index.chunkLocations.insert id.toHex loc)[hex]? = some loc' := hloc
  rw [FinMap.get_insert] at hput
  by_cases hne : id.toHex = hex
  · exact hne ▸ hfile
  · rw [if_neg hne] at hput
    exact h.present hex loc' hput

theorem dropped (h : InStep Q c) {id : ChunkId} {op : EntryOp}
    (hop : droppedRef c.index id = some op) : InStep Q (c.applied op.entry) := by
  refine ⟨fun hex loc hloc => ?_, hQ.tail h.plans⟩
  have hdrop : (applyEntry c.index op.entry) = c.index.dropRef id := by
    rw [IndexState.dropRef, hop]
  have hnew : (c.index.dropRef id).chunkLocations[hex]? = some loc := hdrop ▸ hloc
  have hsome := ((dropRef_locations c.index id hex).1 (by rw [hnew]; rfl)).1
  obtain ⟨loc', hold⟩ := Option.isSome_iff_exists.1 hsome
  exact h.present hex loc' hold

theorem written (X : Crates) (h : InStep Q c) {id : ChunkId} (data : Bytes)
    (hnew : c.files.contains id.toHex ≠ true) :
    InStep Q (c.written X id data) ∧ ((c.written X id data).files[id.toHex]?).isSome := by
  have hc : c.written X id data = { c with
      files := c.files.insert id.toHex ⟨encodeChunk X data, c.clock⟩, io := c.io.tail } :=
    if_neg hnew
  rw [hc]
  refine ⟨⟨fun hex loc hloc => ?_, hQ.tail h.plans⟩, by simp⟩
  have hold := h.present hex loc hloc
  simp only [FinMap.get_insert]
  split_ifs
  · rfl
  · exact hold

/-- The file of a chunk that is not indexed may go. -/
theorem unlinked (h : InStep Q c) {id : ChunkId}
    (hgone : c.index.chunkLocations[id.toHex]? = none) (hfile : c.files.contains id.toHex = true) :
    InStep Q (c.unlinked id) := by
  have hc : c.unlinked id = { c with files := c.files.erase id.toHex, io := c.io.tail } :=
    if_pos hfile
  rw [hc]
  refine ⟨fun hex loc hloc => ?_, hQ.tail h.plans⟩
  have hne : id.toHex ≠ hex := by
    rintro rfl
    cases hgone.symm.trans hloc
  simp only [FinMap.get_erase, if_neg hne]
  exact h.present hex loc hloc

end InStep

/-! ## Every call keeps them -/

section
variable (hQ : Plans Q)
include hQ

theorem inStep_addChunkRef (h : InStep Q c) {id : ChunkId} {path : String}
    (hfile : (c.files[id.toHex]?).isSome) :
    ∃ r c', Does (lens X true) (Index.addChunkRef X id path) c r c' ∧ InStep Q c' := by
  rcases h.appends hQ false with ha | hf
  · exact ⟨_, _, does_addChunkRef ha, h.located hQ hfile⟩
  · exact ⟨_, _, does_addChunkRef_error hf, h.tail hQ⟩

theorem rebuilt_takeRef (id : ChunkId) (data : Bytes) :
    Keeps (Rebuilt X Q) (BlobStore.writeChunk X id data >>= Index.addChunkRef X id) := by
  refine Keeps.of_holds fun c h => ?_
  by_cases hfile : c.files.contains id.toHex = true
  · obtain ⟨r, c', hadd, h'⟩ := inStep_addChunkRef (X := X) hQ h ((FinMap.contains_iff _ _).1 hfile)
    exact ⟨r, c', Does.bind (does_writeChunk_found hfile) hadd, h'⟩
  · cases hw : c.io.head.writeFails with
    | true => exact ⟨_, _, Does.bind_error (does_writeChunk_error hfile hw), h.tail hQ⟩
    | false =>
      obtain ⟨h1, hnew⟩ := h.written hQ X data hfile
      obtain ⟨r, c', hadd, h'⟩ := inStep_addChunkRef (X := X) hQ h1 hnew
      exact ⟨r, c', Does.bind (does_writeChunk hw) hadd, h'⟩

/-- The removal of the file, which may fail. -/
theorem inStep_deleteChunk (h : InStep Q c) {id : ChunkId}
    (hgone : c.index.chunkLocations[id.toHex]? = none) :
    ∃ r c', Does (lens X true) (BlobStore.deleteChunk id) c r c' ∧ InStep Q c' ∧
      (r = .ok () ∨ r = .error ioError) := by
  by_cases hfile : c.files.contains id.toHex = true
  · cases hr : c.io.head.removeFails with
    | true => exact ⟨_, _, does_deleteChunk_error hfile hr, h.tail hQ, .inr rfl⟩
    | false => exact ⟨_, _, does_deleteChunk hr, h.unlinked hQ hgone hfile, .inl rfl⟩
  · exact ⟨_, _, does_deleteChunk_none hfile, h, .inl rfl⟩

/-- The entry of a last reference goes before the file does. -/
theorem rebuilt_release {id : ChunkId} {unlink : M Unit} (hunlink : ∀ {c}, InStep Q c →
      c.index.chunkLocations[id.toHex]? = none →
        ∃ r c', Does (lens X true) unlink c r c' ∧ InStep Q c') :
    Keeps (Rebuilt X Q) (do if ← Index.decrementChunkRef X id then unlink) := by
  refine Keeps.of_holds fun c h => ?_
  cases hop : droppedRef c.index id with
  | none => exact ⟨_, c, Does.bind (does_decrementChunkRef_none hop) (Does.pure ()), h⟩
  | some op =>
    rcases h.appends hQ false with ha | hf
    · have h1 : InStep Q (c.applied op.entry) := h.dropped hQ hop
      have hdec : Does (lens X true) (Index.decrementChunkRef X id) c (.ok (lastRef c.index id))
          (c.applied op.entry) := does_decrementChunkRef hop ha
      cases hlast : lastRef c.index id with
      | false =>
        rw [hlast] at hdec
        exact ⟨_, _, Does.bind hdec (Does.pure ()), h1⟩
      | true =>
        rw [hlast] at hdec
        have hidx : (c.applied op.entry).index = c.index.dropRef id := by
          rw [IndexState.dropRef, hop]
          rfl
        have hgone : (c.applied op.entry).index.chunkLocations[id.toHex]? = none := by
          rw [hidx, ← Option.not_isSome_iff_eq_none, dropRef_locations]
          exact fun hsome => hsome.2 ⟨hlast, rfl⟩
        obtain ⟨r, c', hx, h'⟩ := hunlink h1 hgone
        exact ⟨r, c', Does.bind hdec hx, h'⟩
    · exact ⟨_, _, Does.bind_error (does_decrementChunkRef_error hop hf), h.tail hQ⟩

theorem rebuilt_releaseReplaced (id : ChunkId) :
    Keeps (Rebuilt X Q) (StoreSession.releaseReplaced X id) :=
  rebuilt_release hQ fun h hgone => by
    obtain ⟨r, c', hx, h', rfl | rfl⟩ := inStep_deleteChunk (X := X) hQ h hgone
    · exact ⟨_, c', does_ignoreError_ok hx, h'⟩
    · exact ⟨_, c', does_ignoreError_error hx, h'⟩

theorem rebuilt_releaseDeleted (id : ChunkId) :
    Keeps (Rebuilt X Q) (StorageEngine.releaseDeleted X id) :=
  rebuilt_release hQ fun h hgone =>
    have ⟨r, c', hx, h', _⟩ := inStep_deleteChunk (X := X) hQ h hgone
    ⟨r, c', hx, h'⟩

theorem rebuilt_putManifest (m : MediaManifest) : Keeps (Rebuilt X Q) (Index.putManifest X m) := by
  refine Keeps.of_holds fun c h => ?_
  rcases h.appends hQ true with ha | hf
  · exact ⟨_, _, does_putManifest ha (h.compact hQ 1), h.manifest hQ rfl⟩
  · exact ⟨_, _, does_putManifest_error hf, h.tail hQ⟩

theorem rebuilt_deleteManifest (key : String) :
    Keeps (Rebuilt X Q) (Index.deleteManifest X key) := by
  refine Keeps.of_holds fun c h => ?_
  rcases h.appends hQ true with ha | hf
  · exact ⟨_, _, does_deleteManifest ha (h.compact hQ 1), h.manifest hQ rfl⟩
  · exact ⟨_, _, does_deleteManifest_error hf, h.tail hQ⟩

theorem rebuilt_compact : Keeps (Rebuilt X Q) (Index.compact X) := by
  refine Keeps.of_holds fun c h => ?_
  cases hp : c.io.head.compact with
  | none => exact ⟨_, c, does_compact hp, h⟩
  | some fault =>
    cases fault with
    | beforeRename => exact ⟨_, c, does_compact_error hp, h⟩
    | afterRename => exact absurd hp (h.compact hQ 0)

/-- The files it removes are not those of indexed chunks. -/
theorem rebuilt_gcFiles (indexed : List String) (now : Int) (grace : Nat)
    (files : List (String × ChunkFile)) (report : GcReport) :
    Keeps (fun s => Rebuilt X Q s ∧ ∀ hex : String, (s.index.chunkLocations[hex]?).isSome →
      hex ∈ indexed) (StorageEngine.gcFiles indexed now grace files report) := by
  induction files generalizing report with
  | nil => exact Keeps.pure _
  | cons p rest ih =>
    obtain ⟨hex, file⟩ := p
    rw [StorageEngine.gcFiles]
    split_ifs with hin
    · exact ih _
    · exact ih _
    · refine Keeps.bind (fun s hs => ⟨⟨hs.1.1, hs.1.2.tail hQ⟩, hs.2⟩) fun plan => ?_
      split_ifs
      · exact ih _
      · refine Keeps.bind (fun s hs => ?_) fun _ => ih _
        obtain ⟨⟨hlog, hstep⟩, hall⟩ := hs
        refine ⟨⟨hlog, ⟨fun a loc hloc => ?_, hstep.plans⟩⟩, hall⟩
        have hne : hex ≠ a := by
          rintro rfl
          exact hin (hall hex (Option.isSome_iff_exists.2 ⟨loc, hloc⟩))
        show ((s.files.erase hex)[a]?).isSome
        rw [FinMap.get_erase, if_neg hne]
        exact hstep.present a loc hloc

theorem rebuilt_gc (grace : Nat) : Keeps (Rebuilt X Q) (StorageEngine.gc grace) := by
  intro s hs
  have hrun := Keeps.bind (rebuilt_gcFiles (X := X) hQ s.index.chunkLocations.keys s.clock grace
    (s.files.toList.filter fun p => p.1.utf8ByteSize = 64) {})
    fun report => keeps_gcDangling s.index.chunkLocations.keys report
  exact (hrun s ⟨hs, fun hex hsome => mem_keys_iff.2 hsome⟩).1

/-- **Every call keeps files and index in step**, also one whose operations fail. -/
theorem rebuilt_kept : CallsKept X (Rebuilt X Q) where
  takeRef := rebuilt_takeRef hQ
  releaseReplaced := rebuilt_releaseReplaced hQ
  putManifest := rebuilt_putManifest hQ
  releaseDeleted := rebuilt_releaseDeleted hQ
  deleteManifest := rebuilt_deleteManifest hQ
  gc := rebuilt_gc hQ
  compact := rebuilt_compact hQ

theorem Rebuilt.step (hX : X.Lawful) {w : World} (hw : Rebuilt X Q w.store) (call : Call) :
    Rebuilt X Q (w.step X call).1.store := by
  refine (rebuilt_kept hQ).step hw (fun {durability s} hs => ?_) (fun _ => ?_) call
  · obtain ⟨entries, hopen⟩ := (hw.1.2 rfl).openWith hX durability
    cases hopen.symm.trans hs
    exact ⟨⟨rfl, hw.1.2⟩, ⟨hw.2.present, hw.2.plans⟩⟩
  · exact ⟨hw.1, ⟨hw.2.present, hw.2.plans⟩⟩

end

/-! ## Histories -/

theorem World.eq_of_reopened {w w' : World} {engine : StorageEngine} {durability : Durability}
    (h : w.reopened X engine durability = some w') : w' = (w.step X (.reopen engine durability)).1 := by
  rw [World.reopened] at h
  split at h
  · next w1 hstep =>
    cases h
    rw [hstep]
  · cases h

/-- However the disk behaves, chunk files keep the names of ids. -/
theorem World.named_incident {w w' : World} (hw : Named w.store.files) {e : Incident}
    (h : w.incident X e = some w') : Named w'.store.files := by
  have hstep : ∀ {w : World} call, Named w.store.files → Named (w.step X call).1.store.files :=
    fun call hw => (FileRules.kept named_rules).step (I := OfFiles fun _ => Named) hw
      (fun hs => OfFiles.openWith (P := fun _ => Named) hw hs) (fun _ => hw) call
  have hunder : ∀ io call, Named (w.under X io call).store.files := fun io call =>
    @hstep { w with store := { w.store with io := io } } call hw
  cases e with
  | call call io =>
    cases h
    exact hunder io call
  | died call io engine durability =>
    rw [World.eq_of_reopened h]
    exact hstep _ (hunder io call)

theorem World.named_afterIncidents : ∀ {incidents : List Incident} {w w' : World},
    Named w.store.files → w.afterIncidents X incidents = some w' → Named w'.store.files
  | [], _, _, hw, h => by
    cases h
    exact hw
  | _ :: _, _, _, hw, h => by
    obtain ⟨w1, h1, h2⟩ := Option.bind_eq_some_iff.1 h
    exact named_afterIncidents (World.named_incident hw h1) h2

/-- An engine between two calls. -/
abbrev World.Settled (X : Crates) (w : World) : Prop :=
  Rebuilt X (· = Stream'.const IoPlan.ok) w.store

theorem World.settled_fresh (engine : StorageEngine) (dataDir : String) :
    (World.fresh engine dataDir (Stream'.const .ok)).Settled X := by
  refine ⟨⟨rfl, fun _ => ⟨[], rfl, rfl⟩⟩, ⟨fun hex loc h => ?_, rfl⟩⟩
  have hnone : (∅ : ExtTreeMap String ChunkLocation)[hex]? = some loc := h
  simp at hnone

/-- Where appends leave whole lines or nothing, the engine can be opened again. -/
theorem World.Settled.reopened (hX : X.Lawful) {w : World} (hw : w.Settled X) (engine : StorageEngine)
    (durability : Durability) : ∃ w', w.reopened X engine durability = some w' ∧ w'.Settled X := by
  have hnext := Rebuilt.step plans_ok hX hw (.reopen engine durability)
  obtain ⟨entries, hopen⟩ := (hw.1.2 rfl).openWith hX durability
  refine ⟨(w.step X (.reopen engine durability)).1, ?_, hnext⟩
  rw [World.reopened, World.step, hopen]

theorem World.Settled.incident (hX : X.Lawful) {w : World} (hw : w.Settled X) {e : Incident}
    (hclean : Clean true e.io) : ∃ w', w.incident X e = some w' ∧ w'.Settled X := by
  have hunder : ∀ {io} call, Clean true io → (w.under X io call).Settled X := fun {io} call hio => by
    have hplans : Rebuilt X (Clean true) { w.store with io := io } := ⟨hw.1, hw.2.io hio⟩
    obtain ⟨hlog, hstep⟩ := Rebuilt.step (w := { w with store := { w.store with io := io } })
      plans_clean hX hplans call
    exact ⟨hlog, hstep.io rfl⟩
  cases e with
  | call call io => exact ⟨_, rfl, hunder call hclean⟩
  | died call io engine durability =>
    exact World.Settled.reopened hX (hunder call hclean) engine durability

theorem World.Settled.after (hX : X.Lawful) : ∀ {incidents : List Incident} {w : World},
    (∀ e ∈ incidents, Clean true e.io) → w.Settled X →
      ∃ w', w.afterIncidents X incidents = some w' ∧ w'.Settled X
  | [], w, _, hw => ⟨w, rfl, hw⟩
  | e :: incidents, w, hclean, hw => by
    obtain ⟨w1, h1, hw1⟩ := hw.incident hX (hclean e List.mem_cons_self)
    obtain ⟨w2, h2, hw2⟩ := Settled.after hX (fun e he => hclean e (List.mem_cons_of_mem _ he)) hw1
    refine ⟨w2, ?_, hw2⟩
    rw [World.afterIncidents, h1]
    exact h2

/-! ## The collection -/

/-- **Without grace, the files that are left are those of indexed chunks**, and the index is as it
was. -/
theorem gc_files {w : World} (hw : Named w.store.files) :
    (w.under X (Stream'.const .ok) (.gc 0)).store.index = w.store.index ∧ ∀ hex : String,
      ((w.under X (Stream'.const .ok) (.gc 0)).store.files[hex]?).isSome
        ↔ (w.store.files[hex]?).isSome ∧ (w.store.index.chunkLocations[hex]?).isSome := by
  let s : Store := { w.store with io := Stream'.const .ok }
  have hgc := Swept.gc (s := s) rfl 0
  have hstore : (w.under X (Stream'.const .ok) (.gc 0)).store
      = { left (StorageEngine.gc 0 s) with io := Stream'.const .ok } := by
    show { ({ w with store := s }.onEngine (StorageEngine.gc 0) .report).1.store with
      io := Stream'.const .ok } = _
    rw [World.onEngine]
    cases StorageEngine.gc 0 s <;> rfl
  have hindex : (left (StorageEngine.gc 0 s)).index = s.index := by rw [hgc.rest]
  rw [hstore]
  refine ⟨hindex, fun hex => ?_⟩
  show ((left (StorageEngine.gc 0 s)).files[hex]?).isSome ↔ _
  rw [hgc.files]
  cases hfile : w.store.files[hex]? with
  | none => simp [s]
  | some f =>
    obtain ⟨id, rfl⟩ := hw hex f hfile
    have hrecent : StorageEngine.isRecent s.clock f.mtime 0 = false := by
      rw [StorageEngine.isRecent]
      simp only [Bool.and_eq_false_iff, decide_eq_false_iff_not]
      omega
    simp [s, gcKeeps, hrecent, ChunkId.utf8ByteSize_toHex]

theorem World.reclaims_iff {w : World} (hw : Named w.store.files) :
    w.Reclaims X ↔ ∀ hex : String, (w.store.files[hex]?).isSome ∧
      (w.store.index.chunkLocations[hex]?).isSome ↔ w.store.index.Lists hex := by
  obtain ⟨hidx, hfiles⟩ := gc_files (X := X) hw
  unfold World.Reclaims
  dsimp only
  rw [hidx]
  exact forall_congr' fun hex => by rw [hfiles hex]

/-- **After any history of calls and ends of the process**, whatever the disk does, a collection without
grace leaves just the files that visible manifests list if and only if these are the chunks with a file
and an entry in the index. Where appends leave whole lines or nothing, all chunks with an entry have
their files. -/
theorem gc_reclaims_iff (hX : X.Lawful) (engine : StorageEngine) (dataDir : String)
    (incidents : List Incident) :
    ∀ w ∈ (World.fresh engine dataDir (Stream'.const .ok)).afterIncidents X incidents,
      (w.Reclaims X ↔ ∀ hex : String, (w.store.files[hex]?).isSome ∧
        (w.store.index.chunkLocations[hex]?).isSome ↔ w.store.index.Lists hex) ∧
      ((∀ e ∈ incidents, Clean true e.io) → (w.Reclaims X ↔ ∀ hex : String,
        (w.store.index.chunkLocations[hex]?).isSome ↔ w.store.index.Lists hex)) := by
  intro w hw
  have hnamed : Named w.store.files := World.named_afterIncidents named_empty hw
  have hiff := World.reclaims_iff (X := X) hnamed
  refine ⟨hiff, fun hclean => hiff.trans (forall_congr' fun hex => ?_)⟩
  obtain ⟨w', hw', hsettled⟩ := (World.settled_fresh engine dataDir).after hX hclean
  cases hw.symm.trans hw'
  have hfile : (w.store.index.chunkLocations[hex]?).isSome → (w.store.files[hex]?).isSome := fun h => by
    obtain ⟨loc, hloc⟩ := Option.isSome_iff_exists.1 h
    exact hsettled.2.present hex loc hloc
  rw [and_iff_right_of_imp hfile]

/-- An upload that is dropped after it has flushed a chunk. -/
def droppedUpload : List Incident :=
  [.call (.begin 0 "a" "" []) (Stream'.const .ok), .call (.write 0 [1]) (Stream'.const .ok),
    .call (.drop 0) (Stream'.const .ok)]

/-- The file of the dropped upload stays. -/
theorem dropped_not_reclaimed :
    ∃ w ∈ (World.fresh ⟨1, 0, true⟩ "data" (Stream'.const .ok)).afterIncidents Crates.reference
      droppedUpload, w.sessions.isEmpty = true ∧ ¬ w.Reclaims Crates.reference := by
  have hsome : ((World.fresh ⟨1, 0, true⟩ "data" (Stream'.const .ok)).afterIncidents Crates.reference
      droppedUpload).any (fun w => w.sessions.isEmpty && w.store.index.manifests.toList.isEmpty &&
        (w.store.index.chunkLocations[(ChunkId.fromData Crates.reference [1]).toHex]?).isSome &&
        (w.store.files[(ChunkId.fromData Crates.reference [1]).toHex]?).isSome) = true := by
    decide +kernel
  obtain ⟨w, hw, hfacts⟩ := (Option.any_eq_true _ _).1 hsome
  simp only [Bool.and_eq_true] at hfacts
  obtain ⟨⟨⟨hclosed, hempty⟩, hindexed⟩, hfile⟩ := hfacts
  refine ⟨w, hw, hclosed, fun hreclaims => ?_⟩
  have hnamed : Named w.store.files := World.named_afterIncidents named_empty hw
  obtain ⟨key, m, hm, -⟩ := ((World.reclaims_iff hnamed).1 hreclaims _).1 ⟨hfile, hindexed⟩
  have hmem := ExtTreeMap.mem_toList_iff_getElem?_eq_some.2 hm
  rw [List.isEmpty_iff.1 hempty] at hmem
  cases hmem

/-- A delete that its process does not survive, with an upload open. -/
def lostDelete : List Incident :=
  [.call (.store "a" [1] "text" []) (Stream'.const .ok), .call (.begin 0 "b" "" []) (Stream'.const .ok),
    .call (.write 0 [2]) (Stream'.const .ok), .died (.delete "a") (stopsAfter 1 false) ⟨1, 0, true⟩ .sync]

theorem gc_reclaims_lostDelete :
    ∃ w ∈ (World.fresh ⟨1, 0, true⟩ "data" (Stream'.const .ok)).afterIncidents Crates.reference
        lostDelete,
      (w.Reclaims Crates.reference ↔ ∀ hex : String, (w.store.files[hex]?).isSome ∧
        (w.store.index.chunkLocations[hex]?).isSome ↔ w.store.index.Lists hex) ∧
      (w.Reclaims Crates.reference ↔ ∀ hex : String,
        (w.store.index.chunkLocations[hex]?).isSome ↔ w.store.index.Lists hex) := by
  have hclean : ∀ e ∈ lostDelete, Clean true e.io := by
    intro e he
    simp only [lostDelete, List.mem_cons, List.not_mem_nil, or_false] at he
    rcases he with rfl | rfl | rfl | rfl
    · exact plans_ok.clean rfl
    · exact plans_ok.clean rfl
    · exact plans_ok.clean rfl
    · exact clean_stopsAfter 1 false
  obtain ⟨w, hw, -⟩ := (World.settled_fresh ⟨1, 0, true⟩ "data").after Crates.reference_lawful hclean
  have h := gc_reclaims_iff Crates.reference_lawful ⟨1, 0, true⟩ "data" lostDelete w hw
  exact ⟨w, hw, h.1, h.2 hclean⟩

end KaidaDB
