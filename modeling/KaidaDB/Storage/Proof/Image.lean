import KaidaDB.Crates.Reference
import KaidaDB.Storage.IndexRun
import KaidaDB.Storage.Proof.LogFacts
import KaidaDB.Storage.Proof.Steps

/-!
# The log is an image of the index

`imageLens` looks at the index of a store whose log is an image of it: complete lines for a list of
entries that replays to the index and has `log_entries` of them. Appending and applying an entry keeps
that, and so do rewriting the log from memory and rebuilding memory from the log; what each call does
to the index follows on the way (`IndexCall.after`, `does_runCalls`).
-/

namespace KaidaDB

open Effects

variable {X : Crates} {α : Type} {idx idx' : IndexState}

/-- The log replays to the index, line by line and with as many entries as were counted, and the
manifests are filed under their keys. -/
structure Store.LogImage (X : Crates) (s : Store) : Prop where
  replays : replayLines X (Lines.rawLines s.log) .empty 0 0
    = .ok ⟨s.index, s.logEntries, s.log.length, false⟩
  keyed : s.index.Keyed
  lines : ∃ es, s.log = logBytes X es ∧ es.length = s.logEntries

/-- Complete lines that replay to the index, counted. -/
def Store.Counted (X : Crates) (s : Store) : Prop :=
  ∃ es, s.log = logBytes X es ∧ replayLog es = s.index ∧ es.length = s.logEntries

theorem Store.Counted.logImage (hX : X.Lawful) {s : Store} (h : s.Counted X) : s.LogImage X := by
  obtain ⟨es, hlog, hes, hlen⟩ := h
  refine ⟨?_, hes ▸ replayLog_keyed es, es, hlog, hlen⟩
  have hraw := rawLines_logBytes hX es []
  rw [List.append_nil] at hraw
  rw [hlog, hraw, replayLines_records hX, Nat.zero_add, Nat.zero_add, hlen, ← hes]
  rfl

/-- A store without I/O errors whose log is an image of the index. -/
def imageLens (X : Crates) : Lens Store IndexState where
  healthy s := s.attached = true ∧ s.io = Stream'.const .ok ∧ s.Counted X
  view := Store.index

/-! ## Index operations -/

/-- An entry is appended and applied. -/
theorem does_counted (e : LogEntry) (sync : Bool) {k : Unit → M α} {r : Except Fail α}
    (hk : Does (imageLens X) (k ()) (applyEntry idx e) r idx') :
    Does (imageLens X) (Index.appendEntry X e sync >>= fun _ =>
      (modify fun s => { s with index := applyEntry s.index e } : M Unit) >>= k) idx r idx' := by
  rintro s ⟨hs, hio, es, hlog, hes, hlen⟩ rfl
  refine Exists.elim (hk { s with
    io := s.io.tail, log := s.log ++ entryLine X e, logEntries := s.logEntries + 1,
    index := applyEntry s.index e } ⟨hs, by rw [hio]; rfl, es ++ [e], ?_, ?_, ?_⟩ rfl)
    fun s' h => ⟨s', ?_, h.2⟩
  · rw [logBytes_append, logBytes_singleton, ← hlog]
  · rw [replayLog_snoc, hes]
  · rw [List.length_append, hlen, List.length_singleton]
  · rw [run_bind, appendEntry_ok hs (.inl (by show s.io.head.append = none; rw [hio]; rfl))]
    exact h.1

theorem compact_image : Does (imageLens X) (Index.compact X) idx (.ok ()) idx := by
  rintro s ⟨hs, hio, es, hlog, hes, hlen⟩ rfl
  refine ⟨{ s with
    log := logBytes X (Index.liveEntries s.index), attached := true,
    logEntries := (Index.liveEntries s.index).length }, ?_, ⟨rfl, hio, _, rfl, ?_, rfl⟩, rfl⟩
  · simp only [Index.compact, run_bind, run_get, hio]
    rfl
  · exact replayLog_liveEntries (hes ▸ replayLog_keyed es)

theorem maybeCompact_image : Does (imageLens X) (Index.maybeCompact X) idx (.ok ()) idx := by
  refine Does.get_bind fun s _ _ => ?_
  split_ifs
  · exact Does.pure ()
  · exact Does.pure ()
  · exact Does.tryCatch_ok (compact_image.map fun _ => ())

theorem entryOp_image (op : EntryOp) :
    Does (imageLens X) (op.run X) idx (.ok ()) (applyEntry idx op.entry) := by
  cases op with
  | putManifest m => exact does_counted _ _ maybeCompact_image
  | deleteManifest key => exact does_counted _ _ maybeCompact_image
  | putChunkLocation id loc =>
    have h : Does (imageLens X) _ idx _ _ :=
      does_counted (.putChunkLocation id.toHex loc) false (Does.pure ())
    rwa [bind_pure] at h
  | deleteChunkLocation id =>
    have h : Does (imageLens X) _ idx _ _ :=
      does_counted (.deleteChunkLocation id.toHex) false (Does.pure ())
    rwa [bind_pure] at h

/-- What an operation makes of the index. -/
def IndexOp.after (idx : IndexState) (op : IndexOp) : IndexState :=
  ((op.write? idx).map EntryOp.entry).elim idx (applyEntry idx)

theorem location_image {id : ChunkId} : Does (imageLens X) (Index.getChunkLocation id) idx
    (.ok idx.chunkLocations[id.toHex]?) idx :=
  Does.get_bind fun _ _ hv => hv ▸ Does.pure _

theorem indexOp_image (op : IndexOp) : Does (imageLens X) (op.run X) idx (.ok ()) (op.after idx) := by
  cases op with
  | put op => exact entryOp_image op
  | addChunkRef id path =>
    exact Does.bind location_image (entryOp_image (.putChunkLocation id (addedRef idx id path)))
  | decrementChunkRef id =>
    refine Does.map (a := lastRef idx id) _ (Does.bind location_image ?_)
    rw [IndexOp.after, IndexOp.write?, droppedRef, lastRef]
    cases idx.chunkLocations[id.toHex]? with
    | none => exact Does.pure false
    | some loc =>
      dsimp only [Option.map_some, Option.any_some, Option.elim_some]
      split_ifs with hle
      · refine Does.bind (entryOp_image (.deleteChunkLocation id)) ?_
        simpa [hle] using Does.pure true
      · refine Does.bind (entryOp_image (.putChunkLocation id _)) ?_
        simpa [hle] using Does.pure false
  | compact => exact compact_image

/-! ## Runs of calls -/

/-- What a call makes of the index: reopening it changes nothing. -/
def IndexCall.after (idx : IndexState) : IndexCall → IndexState
  | index op => op.after idx
  | reopen _ => idx

theorem reopen_image (hX : X.Lawful) (durability : Durability) :
    Does (imageLens X) (Index.reopen X durability) idx (.ok ()) idx := by
  rintro s ⟨hs, hio, es, hlog, hes, hlen⟩ rfl
  have hopen := openWith_eq (d := durability) (hlog ▸ openLog_logBytes hX es)
  refine ⟨{ s with
    durability := durability, index := replayLog es, logEntries := es.length, attached := true },
    ?_, ⟨rfl, hio, es, hlog, rfl, rfl⟩, hes⟩
  rw [Index.reopen, hopen]
  rfl

theorem does_runCalls (hX : X.Lawful) : ∀ (calls : List IndexCall) {idx : IndexState},
    Does (imageLens X) (runCalls X calls) idx (.ok ()) (calls.foldl IndexCall.after idx)
  | [], _ => Does.pure ()
  | .index op :: calls, _ => Does.bind (indexOp_image op) (does_runCalls hX calls)
  | .reopen durability :: calls, _ => Does.bind (reopen_image hX durability) (does_runCalls hX calls)

/-- **The log is an image of the index after every call**: from a log of complete lines that is opened,
calls without I/O errors succeed, do to the index what they say, and leave a log that replays to it. -/
theorem log_is_image (hX : X.Lawful) (es : List LogEntry) (dataDir : String) (durability : Durability)
    (calls : List IndexCall) :
    let start := { Store.emptyDir dataDir (Stream'.const .ok) with log := logBytes X es }
    ∃ s, runCalls X (.reopen durability :: calls) start = .ok () s ∧
      s.index = calls.foldl IndexCall.after (replayLog es) ∧ s.LogImage X := by
  intro start
  have hopen := openWith_eq (s := start) (d := durability) (openLog_logBytes hX es)
  obtain ⟨s, hs, ⟨-, -, hcounted⟩, hindex⟩ := does_runCalls hX calls
    { start with
      durability := durability, index := replayLog es, logEntries := es.length, attached := true }
    ⟨rfl, rfl, es, rfl, rfl, rfl⟩ rfl
  refine ⟨s, ?_, hindex, hcounted.logImage hX⟩
  show (Index.reopen X durability >>= _) start = _
  rw [run_bind, Index.reopen, hopen]
  exact hs

theorem log_is_image_quoted :
    let start := { Store.emptyDir "data" (Stream'.const .ok) with log := logBytes .reference [] }
    let calls : List IndexCall := [.index (.put (.deleteManifest "a\"b\né")), .index .compact, .reopen .sync]
    ∃ s, runCalls .reference (.reopen .none :: calls) start = .ok () s ∧
      s.index = calls.foldl IndexCall.after (replayLog []) ∧ s.LogImage .reference :=
  log_is_image Crates.reference_lawful [] "data" .none _

end KaidaDB
