import KaidaDB.Crates.Reference
import KaidaDB.Storage.Proof.Recovery
import KaidaDB.Storage.Proof.Steps

/-!
# Writing after recovery

`durable_iff_terminated`: after a log with the tail `p` of an entry's line was opened, everything
written from then on is there at the next opening exactly when `p` is not the complete text of the
entry. That text is accepted as a line although its newline is missing, the file is left as it is,
and the next entry is written on the same line (`lost_after_unterminated`); every other tail
is cut off, so that the file ends with a complete line (`durable_after_logged`).
-/

namespace KaidaDB

open Std Effects

variable {X : Crates}

/-- Entries written by `ops` make memory the replay of `es` and theirs, and the next opening finds
memory as it is. -/
def SurvivesReopen (X : Crates) (es : List LogEntry) (ops : List EntryOp) (s : Store) : Prop :=
  (runOps X (ops.map .put) s).index = replayLog (es ++ ops.map EntryOp.entry) ∧
    ∃ t, Index.openWith X (runOps X (ops.map .put) s) s.durability = .ok t ∧
      t.index = (runOps X (ops.map .put) s).index

/-- Without faults an operation writes its entry. -/
theorem does_entryOp {logged : Bool} (op : EntryOp) {c : View} (hc : c.io = Stream'.const .ok) :
    Does (lens X logged) (op.run X) c (.ok ()) (c.applied op.entry) := by
  have ha : ∀ sync, c.Appends sync := fun _ => .inl (by rw [hc]; rfl)
  have hp : c.io.tail.head.compact ≠ some .afterRename := by
    rw [hc]
    exact (by decide : IoPlan.ok.compact ≠ some .afterRename)
  cases op with
  | putManifest m => exact does_putManifest (ha _) hp
  | deleteManifest key => exact does_deleteManifest (ha _) hp
  | putChunkLocation id loc => exact does_putChunkLocation (ha _)
  | deleteChunkLocation id => exact does_deleteChunkLocation (ha _)

/-- Without faults a store that is in step with its log stays so, and memory follows the entries. -/
theorem runOps_logged : ∀ (ops : List EntryOp) {s : Store}, s.attached = true → s.Logged X →
    s.io = Stream'.const .ok →
    (runOps X (ops.map .put) s).Logged X ∧
      (runOps X (ops.map .put) s).index
        = Replay.replay applyEntry s.index (ops.map EntryOp.entry)
  | [], _, _, hl, _ => ⟨hl, rfl⟩
  | op :: ops, s, hs, hl, hio => by
    have hdoes : Does (lens X true) (op.run X) s.view _ _ := does_entryOp op hio
    obtain ⟨s', hr, ⟨hs', hl'⟩, hv⟩ := hdoes s ⟨hs, fun _ => hl⟩ rfl
    have hrun : storeAfter ((IndexOp.put op).run X s) = s' := by
      show storeAfter (op.run X s) = s'
      rw [hr]
      rfl
    have hio' : s'.io = Stream'.const .ok := by
      have : s'.io = s.io.tail := congrArg View.io hv
      rw [this, hio]
      rfl
    have hidx : s'.index = applyEntry s.index op.entry := congrArg View.index hv
    have ih := runOps_logged ops hs' (hl' rfl) hio'
    rw [List.map_cons, runOps, hrun]
    exact ⟨ih.1, by rw [ih.2, hidx]; rfl⟩

/-- A store in step with its log loses nothing. -/
theorem durable_after_logged (hX : X.Lawful) {es : List LogEntry} {s : Store}
    (hs : s.attached = true) (hlog : s.log = logBytes X es) (hidx : s.index = replayLog es)
    (hio : s.io = Stream'.const .ok) (ops : List EntryOp) : SurvivesReopen X es ops s := by
  obtain ⟨⟨es', hlog', hes'⟩, hidx'⟩ := runOps_logged ops hs ⟨es, hlog, hidx.symm⟩ hio
  refine ⟨?_, _, openWith_eq (hlog' ▸ openLog_logBytes hX es'), hes'⟩
  rw [hidx', hidx]
  exact (Replay.replay_append ..).symm

/-- A location that a state does not have under an id. -/
def otherLocation (st : IndexState) (id : ChunkId) : ChunkLocation :=
  ⟨"", (st.chunkLocations[id.toHex]?).elim 0 ChunkLocation.refCount + 1⟩

theorem otherLocation_ne (st : IndexState) (id : ChunkId) :
    st.chunkLocations[id.toHex]? ≠ some (otherLocation st id) := by
  intro h
  have h' := congrArg (fun o => o.elim 0 ChunkLocation.refCount) h
  simp [otherLocation] at h'

/-- Behind a text without its newline the next entry is lost at the next opening. -/
theorem lost_after_unterminated (hX : X.Lawful) (hT : X.RejectsTrailing) {es : List LogEntry}
    {e : LogEntry} {s : Store} (hs : s.attached = true)
    (hlog : s.log = logBytes X es ++ Utf8.encode (X.jsonToString e))
    (hio : s.io = Stream'.const .ok) {id : ChunkId} {loc : ChunkLocation}
    (hloc : (replayLog es).chunkLocations[id.toHex]? ≠ some loc) :
    ¬ SurvivesReopen X (es ++ [e]) [.putChunkLocation id loc] s := by
  rintro ⟨-, t, hopen, ht⟩
  let f : LogEntry := .putChunkLocation id.toHex loc
  have hrun : runOps X [.put (.putChunkLocation id loc)] s = { s with
      io := s.io.tail, log := s.log ++ entryLine X f, logEntries := s.logEntries + 1,
      index := applyEntry s.index f } := by
    have hok : Index.appendEntry X f false s = _ := appendEntry_ok hs (.inl (by show s.io.head.append = none; rw [hio]; rfl))
    simp only [runOps, IndexOp.run, EntryOp.run, Index.putChunkLocation, run_bind]
    rw [hok]
    rfl
  -- both texts stand on one line, which is no entry
  have hline : Lines.rawLines (Utf8.encode (X.jsonToString e) ++ entryLine X f)
      = [Lines.record (X.jsonToString e ++ X.jsonToString f)] := by
    have hnl : '\n' ∉ X.jsonToString e ++ X.jsonToString f := by
      rw [List.mem_append, not_or]
      exact ⟨(hX.one_line e).1, (hX.one_line f).1⟩
    have := Lines.rawLines_cons_nl (Utf8.encode (X.jsonToString e ++ X.jsonToString f)) []
      (Lines.nl_not_mem_encode hnl)
    rw [Utf8.encode_append] at this
    rw [entryLine, Lines.record, Lines.record, Utf8.encode_append, ← List.append_assoc]
    exact this
  have hread : Lines.readLine (Lines.record (X.jsonToString e ++ X.jsonToString f))
      = some (X.jsonToString e ++ X.jsonToString f) := by
    refine Lines.readLine_record ?_
    rw [List.mem_append, not_or]
    exact ⟨(hX.one_line e).2, (hX.one_line f).2⟩
  have hne : X.jsonToString e ++ X.jsonToString f ≠ [] := fun h =>
    jsonToString_ne_nil hX e (List.append_eq_nil_iff.1 h).1
  have hcut := openLog_cut hX es hline hread hne (hT e f)
  have hlog' : (runOps X [.put (.putChunkLocation id loc)] s).log
      = logBytes X es ++ (Utf8.encode (X.jsonToString e) ++ entryLine X f) := by
    rw [hrun, hlog, List.append_assoc]
  rw [List.map_cons, List.map_nil, openWith_eq (hlog' ▸ hcut)] at hopen
  cases hopen
  -- the location in memory is not the one the opening rebuilds
  have hmem : (runOps X [.put (.putChunkLocation id loc)] s).index
      = applyEntry s.index f := by rw [hrun]
  refine hloc ?_
  rw [show replayLog es = _ from ht, List.map_cons, List.map_nil, hmem]
  simp [f, applyEntry]

/-- **What is written after recovery is durable exactly if the tail was no complete text.** -/
theorem durable_iff_terminated (hX : X.Lawful) (hT : X.RejectsTrailing) {es : List LogEntry}
    {e : LogEntry} {p : Bytes} (hp : p <+: entryLine X e) (hne : p ≠ entryLine X e) {s0 s : Store}
    {d : Durability} (hlog : s0.log = logBytes X es ++ p) (hio : s0.io = Stream'.const .ok)
    (hopen : Index.openWith X s0 d = .ok s) :
    (∀ ops, SurvivesReopen X (recoverable X es e p) ops s)
      ↔ p ≠ Utf8.encode (X.jsonToString e) := by
  have hutf : ∃ l, Utf8.decode p = some l := by
    by_contra h
    have hnone : Utf8.decode p = none := Option.eq_none_iff_forall_ne_some.2 fun l hl => h ⟨l, hl⟩
    have hp0 : p ≠ [] := by
      rintro rfl
      exact h ⟨[], by simp [Utf8.decode_eq_some]⟩
    rw [Index.openWith, hlog, openLog_invalid hX (nl_not_mem_start hX hp hne) hp0 hnone] at hopen
    cases hopen
  obtain ⟨l, hl⟩ := hutf
  rw [Index.openWith, hlog, openLog_tail hX hp hne hl] at hopen
  cases hopen
  by_cases hfull : p = Utf8.encode (X.jsonToString e)
  · rw [recoverable, if_pos hfull]
    refine iff_of_false (fun h => ?_) (not_not.2 hfull)
    refine lost_after_unterminated hX hT ?_ ?_ ?_
      (otherLocation_ne (replayLog es) ⟨Vector.replicate 32 0⟩) (h _)
    · rfl
    · show (if p = _ then _ else _) = _
      rw [if_pos hfull, hfull]
    · exact hio
  · rw [recoverable, if_neg hfull]
    refine iff_of_true (fun ops => durable_after_logged hX ?_ ?_ ?_ ?_ ops) hfull
    · rfl
    · exact if_neg hfull
    · rfl
    · exact hio

/-! ## Two recoveries on an empty directory -/

/-- A log with the bytes `p`, opened. -/
def openedOn (p : Bytes) : Store := { Store.emptyDir "data" (Stream'.const .ok) with log := p }

theorem durable_iff_terminated_cut :
    (∀ ops, SurvivesReopen .reference
        (recoverable .reference [] (.deleteManifest "a") (Utf8.encode ['\x7b'])) ops
        (openedOn []))
      ↔ Utf8.encode ['\x7b'] ≠ Utf8.encode (Crates.reference.jsonToString (.deleteManifest "a")) := by
  have hopen : Index.openLog .reference (openedOn (Utf8.encode ['\x7b'])).log
      = .ok (replayLog [], 0, []) :=
    openLog_torn Crates.reference_lawful [] (e := .deleteManifest "a") (l := ['\x7b'])
      (by decide) (by decide) (by decide)
  exact durable_iff_terminated Crates.reference_lawful Crates.reference_rejectsTrailing (by decide)
    (by decide) (show (openedOn (Utf8.encode ['\x7b'])).log = logBytes .reference [] ++ _ from rfl)
    rfl (openWith_eq hopen)

/-- The removal of a key, without its newline. -/
def unterminated : Bytes := Utf8.encode (Crates.reference.jsonToString (.deleteManifest "a"))

/-- The reference taken behind an unterminated line is lost. -/
theorem not_durable_unterminated :
    ¬ ∀ (es : List LogEntry) (e : LogEntry) (p : Bytes) (s0 s : Store), p <+: entryLine .reference e →
      p ≠ entryLine .reference e → s0.log = logBytes .reference es ++ p →
      s0.io = Stream'.const .ok → Index.openWith .reference s0 .none = .ok s →
      ∀ ops, SurvivesReopen .reference (recoverable .reference es e p) ops s := by
  intro h
  have hopen : Index.openLog .reference (openedOn unterminated).log
      = .ok (replayLog [.deleteManifest "a"], 1, unterminated) :=
    openLog_unterminated Crates.reference_lawful [] (.deleteManifest "a")
  have hp : SurvivesReopen .reference ([] ++ [.deleteManifest "a"]) _ _ := h [] (.deleteManifest "a") unterminated (openedOn unterminated) _ (by decide)
    (by decide) rfl rfl (openWith_eq hopen) [.putChunkLocation ⟨Vector.replicate 32 0⟩ ⟨"p", 1⟩]
  refine lost_after_unterminated Crates.reference_lawful Crates.reference_rejectsTrailing
    ?_ ?_ ?_ ?_ hp
  · rfl
  · rfl
  · rfl
  · exact ne_of_eq_of_ne ExtTreeMap.getElem?_empty (by decide)

end KaidaDB
