import KaidaDB.Storage.Proof.Image

/-!
# The log stays in proportion to the index

The counter that compaction goes by is the number of entries in the log after every call
(`Store.Counted`), and an operation on a manifest ends in `maybeCompact`, behind which the counter is
small against the live entries it is compared with (`maybeCompact_proportional`).
-/

namespace KaidaDB

open Effects

variable {X : Crates}

/-- `n` entries are few: below the floor of compaction, or below its ratio to the live ones. -/
def Proportional (idx : IndexState) (n : Nat) : Prop := n < max 1024 (2 * idx.live)

/-- The live entries themselves always are. -/
theorem proportional_live (idx : IndexState) : Proportional idx idx.live := by
  rw [Proportional]
  omega

theorem liveEntries_length (idx : IndexState) : (Index.liveEntries idx).length = idx.live := by
  rw [Index.liveEntries, List.length_append, List.length_map, List.length_map,
    Std.ExtTreeMap.length_toList, Std.ExtTreeMap.length_toList]
  rfl

theorem maybeCompact_proportional {s : Store} (hio : s.io = Stream'.const .ok) :
    ∃ s', Index.maybeCompact X s = .ok () s' ∧ Proportional s'.index s'.logEntries := by
  refine ⟨_, maybeCompact_run s, ?_⟩
  rw [show s.io.head.compact = none by rw [hio]; rfl]
  split_ifs with hfew
  · rcases hfew with hfloor | hratio
    · exact Nat.lt_of_lt_of_le hfloor (Nat.le_max_left _ _)
    · exact Nat.lt_of_lt_of_le hratio (Nat.le_max_right _ _)
  · show Proportional s.index (Index.liveEntries s.index).length
    rw [liveEntries_length]
    exact proportional_live _

/-- The operations that put or delete a manifest. -/
def EntryOp.OnManifest : EntryOp → Prop
  | putManifest _ | deleteManifest _ => True
  | putChunkLocation _ _ | deleteChunkLocation _ => False

/-- They log an entry and apply it, and then compact if need be. -/
theorem EntryOp.run_eq {op : EntryOp} (hop : op.OnManifest) : op.run X =
    (Index.appendEntry X op.entry true >>= fun _ =>
      modify fun s => { s with index := applyEntry s.index op.entry }) >>= fun _ =>
      Index.maybeCompact X := by
  cases op with
  | putManifest m => exact (bind_assoc _ _ _).symm
  | deleteManifest key => exact (bind_assoc _ _ _).symm
  | putChunkLocation id loc => exact hop.elim
  | deleteChunkLocation id => exact hop.elim

/-- They leave a proportional log, whatever was in it before. -/
theorem entryOp_proportional {op : EntryOp} (hop : op.OnManifest) {s : Store}
    (h : (imageLens X).healthy s) :
    ∃ s', op.run X s = .ok () s' ∧ s'.Counted X ∧ Proportional s'.index s'.logEntries := by
  have hlogged : Does (imageLens X) _ s.index _ _ :=
    does_counted op.entry true (Does.pure ())
  rw [bind_pure] at hlogged
  obtain ⟨s1, hlog, hs1, -⟩ := hlogged s h rfl
  obtain ⟨s2, hcompact, hs2, -⟩ := maybeCompact_image s1 hs1 rfl
  obtain ⟨s3, hcompact', hsmall⟩ := maybeCompact_proportional (X := X) hs1.2.1
  -- both say what the one compaction does
  obtain rfl : s2 = s3 := by
    rw [hcompact] at hcompact'
    exact (EStateM.Result.ok.injEq ..).mp hcompact' |>.2
  refine ⟨s2, ?_, hs2.2.2, hsmall⟩
  rw [EntryOp.run_eq hop, run_bind, hlog]
  exact hcompact

/-- **The log is proportional** whenever an operation on a manifest returns: its complete lines are
those of the entries that replay to the index, and they are few. -/
theorem log_stays_proportional (hX : X.Lawful) (dataDir : String) (durability : Durability)
    (calls : List IndexCall) {op : EntryOp} (hop : op.OnManifest) :
    ∃ s1 s2 es, runCalls X (.reopen durability :: calls)
        (Store.emptyDir dataDir (Stream'.const .ok)) = .ok () s1 ∧
      op.run X s1 = .ok () s2 ∧ s2.log = logBytes X es ∧ replayLog es = s2.index ∧
      es.length < max 1024 (2 * (s2.index.manifests.size + s2.index.chunkLocations.size)) := by
  obtain ⟨s1, hcalls, hs1, -⟩ := does_runCalls hX (.reopen durability :: calls)
    (Store.emptyDir dataDir (Stream'.const .ok)) ⟨rfl, rfl, [], rfl, rfl, rfl⟩ rfl
  obtain ⟨s2, hrun, ⟨es, hlog, hreplay, hlen⟩, hsmall⟩ := entryOp_proportional hop hs1
  refine ⟨s1, s2, es, hcalls, hrun, hlog, hreplay, ?_⟩
  rw [hlen]
  exact hsmall

/-- An object of one chunk. -/
def smallManifest (key : String) : MediaManifest :=
  ⟨key, [.fromData .reference [1]], 1, 1, "", "", [], 0, 0⟩

/-- A chunk is referenced, and an object is put as often as it takes for the log to be compacted. -/
def putOften : List IndexCall :=
  .index (.addChunkRef (.fromData .reference [1]) "") ::
    .replicate 1100 (.index (.put (.putManifest (smallManifest "a"))))

theorem log_stays_proportional_put : ∃ s1 s2 es,
    runCalls .reference (.reopen .sync :: putOften) (Store.emptyDir "data" (Stream'.const .ok)) = .ok () s1 ∧
      (EntryOp.putManifest (smallManifest "b")).run .reference s1 = .ok () s2 ∧
      s2.log = logBytes .reference es ∧ replayLog es = s2.index ∧
      es.length < max 1024 (2 * (s2.index.manifests.size + s2.index.chunkLocations.size)) :=
  log_stays_proportional Crates.reference_lawful "data" .sync putOften trivial

end KaidaDB
