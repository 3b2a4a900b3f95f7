import KaidaDB.Lib.Shadows
import KaidaDB.Storage.Engine
import KaidaDB.Storage.Proof.LogFacts

/-!
# Deleting beside a store whose file system works

What operations on a store do to the index and the chunk files does not depend on the log: where they
return `Ok` on a store with I/O errors, they do what they do on one without (`delete_shadows`).
-/

namespace KaidaDB

open Effects

variable {X : Crates}

/-- `t` has the index and the files of `s`, and no I/O errors to come. -/
structure Beside (s t : Store) : Prop where
  index : s.index = t.index
  files : s.files = t.files
  calm : t.io = Stream'.const .ok

/-- Programs that do the same on both, but for I/O errors. -/
abbrev Steady {α : Type} (x : M α) : Prop := Shadows Beside (· = ioError) x x

/-- `x` returns `a` and leaves the index and the files as they are. -/
def Quiet {α : Type} (x : M α) (a : α) (s : Store) : Prop :=
  ∃ s', x s = .ok a s' ∧ s'.index = s.index ∧ s'.files = s.files ∧
    (s.io = Stream'.const .ok → s'.io = Stream'.const .ok)

theorem steady_of_quiet {α : Type} {x : M α} {a : α} (h : ∀ s, Quiet x a s) : Steady x := by
  intro s t hst
  obtain ⟨s', hs, hindex, hfiles, -⟩ := h s
  obtain ⟨t', ht, hindex', hfiles', hcalm⟩ := h t
  exact .inr ⟨a, s', t', hs, ht, hindex.trans (hst.index.trans hindex'.symm),
    hfiles.trans (hst.files.trans hfiles'.symm), hcalm hst.calm⟩

/-! ## The log -/

theorem appendEntry_quiet {e : LogEntry} {sync : Bool} (s : Store)
    (hp : s.io.head.append = none) : Quiet (Index.appendEntry X e sync) () s := by
  refine ⟨{ s.written (entryLine X e) with logEntries := s.logEntries + 1 }, ?_, rfl, rfl, fun h => ?_⟩
  · rw [appendEntry_run, hp]
  · exact congrArg Stream'.tail h

/-- An append fails or does what it does anywhere. -/
theorem appendEntry_cases {e : LogEntry} {sync : Bool} (s : Store) :
    (∃ s', Index.appendEntry X e sync s = .error ioError s') ∨
      Quiet (Index.appendEntry X e sync) () s := by
  rcases hp : s.io.head.append with _ | n | _
  · exact .inr (appendEntry_quiet s hp)
  · refine .inl ⟨s.written ((entryLine X e).take n), ?_⟩
    rw [appendEntry_run, hp]
  · by_cases hsync : sync = true ∧ s.durability = .sync
    · refine .inl ⟨s.written (entryLine X e), ?_⟩
      rw [appendEntry_run, hp]
      exact if_pos hsync
    · refine .inr ⟨{ s.written (entryLine X e) with logEntries := s.logEntries + 1 }, ?_, rfl, rfl,
        fun h => congrArg Stream'.tail h⟩
      rw [appendEntry_run, hp]
      exact if_neg hsync

theorem steady_appendEntry (e : LogEntry) (sync : Bool) : Steady (Index.appendEntry X e sync) := by
  intro s t h
  have hquiet : Quiet (Index.appendEntry X e sync) () t := appendEntry_quiet t (by rw [h.calm]; rfl)
  have hcases : _ ∨ Quiet (Index.appendEntry X e sync) () s := appendEntry_cases s
  obtain ⟨t', ht, htindex, htfiles, htcalm⟩ := hquiet
  rcases hcases with ⟨s', hs⟩ | ⟨s', hs, hsindex, hsfiles, -⟩
  · exact .inl ⟨_, s', hs, .inl rfl⟩
  · exact .inr ⟨(), s', t', hs, ht, hsindex.trans (h.index.trans htindex.symm),
      hsfiles.trans (h.files.trans htfiles.symm), htcalm h.calm⟩

theorem maybeCompact_quiet (s : Store) : Quiet (Index.maybeCompact X) () s := by
  refine ⟨_, maybeCompact_run s, ?_⟩
  split_ifs
  · exact ⟨rfl, rfl, id⟩
  · rcases s.io.head.compact with _ | _ | _
    · exact ⟨rfl, rfl, id⟩
    · exact ⟨rfl, rfl, id⟩
    · exact ⟨rfl, rfl, id⟩

/-- An append and the change in memory after it. -/
theorem steady_logged (e : LogEntry) (sync : Bool) {k : Unit → M Unit} (hk : Steady (k ())) :
    Steady (Index.appendEntry X e sync >>= fun _ =>
      (modify fun s => { s with index := applyEntry s.index e } : M Unit) >>= k) :=
  (steady_appendEntry e sync).bind fun _ =>
    (Shadows.update fun _ _ h => ⟨congrArg (applyEntry · e) h.index, h.files, h.calm⟩).bind
      fun _ => hk

theorem steady_deleteManifest (key : String) : Steady (Index.deleteManifest X key) :=
  steady_logged _ true (steady_of_quiet maybeCompact_quiet)

theorem steady_putChunkLocation (id : ChunkId) (loc : ChunkLocation) :
    Steady (Index.putChunkLocation X id loc) := by
  have h : Steady (Index.appendEntry X (.putChunkLocation id.toHex loc) false >>= fun _ => _) :=
    steady_logged _ false (k := fun _ => pure ()) (Shadows.pure ())
  rwa [bind_pure] at h

theorem steady_deleteChunkLocation (id : ChunkId) :
    Steady (Index.deleteChunkLocation X id) := by
  have h : Steady (Index.appendEntry X (.deleteChunkLocation id.toHex) false >>= fun _ => _) :=
    steady_logged _ false (k := fun _ => pure ()) (Shadows.pure ())
  rwa [bind_pure] at h

/-! ## Deleting -/

/-- What is read of the index is the same on both sides. -/
theorem steady_reads {α β : Type} (f : IndexState → α) {k : α → M β} (hk : ∀ a, Steady (k a)) :
    Steady ((get : M Store) >>= fun s => k (f s.index)) :=
  Shadows.get_bind fun s _ h => h.index ▸ hk (f s.index)

theorem steady_decrementChunkRef (id : ChunkId) : Steady (Index.decrementChunkRef X id) := by
  have hread : Steady (Index.getChunkLocation id) :=
    steady_reads (fun i => i.chunkLocations[id.toHex]?) fun _ => Shadows.pure _
  refine hread.bind fun o => ?_
  cases o with
  | none => exact Shadows.pure false
  | some loc =>
    dsimp only
    split_ifs
    · exact (steady_deleteChunkLocation id).bind fun _ => Shadows.pure true
    · exact (steady_putChunkLocation id _).bind fun _ => Shadows.pure false

theorem steady_deleteChunk (id : ChunkId) : Steady (BlobStore.deleteChunk id) := by
  intro s t h
  by_cases hin : t.files.contains id.toHex = true
  · have hplan : t.io.head.removeFails = false := by rw [h.calm]; rfl
    cases hfails : s.io.head.removeFails with
    | true =>
      refine .inl ⟨_, { s with io := s.io.tail }, ?_, .inl rfl⟩
      simp only [BlobStore.deleteChunk, run_bind, run_get, h.files, hin, if_true, nextPlan,
        run_modifyGet, hfails]
      rfl
    | false =>
      refine .inr ⟨(), { s with io := s.io.tail, files := s.files.erase id.toHex },
        { t with io := t.io.tail, files := t.files.erase id.toHex }, ?_, ?_, h.index, ?_, ?_⟩
      · simp only [BlobStore.deleteChunk, run_bind, run_get, h.files, hin, if_true, nextPlan,
          run_modifyGet, hfails]
        rfl
      · simp only [BlobStore.deleteChunk, run_bind, run_get, hin, if_true, nextPlan,
          run_modifyGet, hplan]
        rfl
      · show s.files.erase _ = t.files.erase _
        rw [h.files]
      · show t.io.tail = _
        rw [h.calm]
        rfl
  · refine .inr ⟨(), s, t, ?_, ?_, h⟩
    · simp only [BlobStore.deleteChunk, run_bind, run_get, h.files, if_neg hin]
      rfl
    · simp only [BlobStore.deleteChunk, run_bind, run_get, if_neg hin]
      rfl

theorem steady_releaseDeleted (id : ChunkId) : Steady (StorageEngine.releaseDeleted X id) := by
  refine (steady_decrementChunkRef id).bind fun last => ?_
  split_ifs
  · exact steady_deleteChunk id
  · exact Shadows.pure ()

/-- **Deleting an object** fails with an I/O error or does what it does without any. -/
theorem steady_delete (key : String) : Steady (StorageEngine.delete X key) := by
  have hread : Steady (Index.getManifest key) :=
    steady_reads (fun i => i.manifests[key]?) fun _ => Shadows.pure _
  refine hread.bind fun o => ?_
  cases o with
  | none => exact Shadows.pure false
  | some m =>
    exact (Shadows.forM steady_releaseDeleted m.chunks).bind fun _ =>
      (steady_deleteManifest key).bind fun _ => Shadows.pure true

end KaidaDB
