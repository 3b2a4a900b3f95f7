import Mathlib.Data.List.Sublists
import KaidaDB.Crates.Reference
import KaidaDB.Storage.Proof.Recovery
import KaidaDB.Storage.Proof.Steps

/-!
# Failing appends

`LogInv` relates a store to the entries attempted so far (`attempts`): memory holds the effect of
those whose operation returned `Ok`, the log complete lines for a selection of the attempted ones
that has all of these, and behind them at most the start of the line of a failed one. A step keeps
it if whatever it writes starts on a fresh line and ends between characters (`SafeWrite`), so in
runs of such steps reopening finds every acknowledged entry (`acknowledged_survive`). A write behind
a line left half written breaks it (`acknowledged_lost`).
-/

namespace KaidaDB

open Std Effects

variable {X : Crates}

/-! ## One append -/

/-- What an append writes to the file, by the plan for it. -/
def appended (X : Crates) (s : Store) (e : LogEntry) : Bytes :=
  match s.io.head.append with
  | some (.write n) => (entryLine X e).take n
  | _ => entryLine X e

/-- The append returns an error. -/
def appendFails (s : Store) (sync : Bool) : Bool :=
  match s.io.head.append with
  | none => false
  | some (.write _) => true
  | some .sync => sync && s.durability = .sync

theorem appendEntry_eq {s : Store} (hs : s.attached = true) (e : LogEntry) (sync : Bool) :
    Index.appendEntry X e sync s =
      if appendFails s sync then
        .error ioError { s with io := s.io.tail, log := s.log ++ appended X s e }
      else
        .ok () { s with
          io := s.io.tail, log := s.log ++ appended X s e, logEntries := s.logEntries + 1 } := by
  unfold appendFails appended
  rcases h : s.io.head.append with _ | n | _
  · exact appendEntry_ok hs (.inl h)
  · exact appendEntry_write hs h
  · rw [appendEntry_run, h, Store.written_attached hs]
    simp only [Bool.and_eq_true, decide_eq_true_eq]

theorem appended_eq_of_not_fails {s : Store} {e : LogEntry} {sync : Bool}
    (h : appendFails s sync = false) : appended X s e = entryLine X e := by
  unfold appendFails at h
  unfold appended
  split at h <;> simp_all

/-! ## One operation -/

/-- What an operation that writes `e` does to a store. -/
structure Writes (X : Crates) (s : Store) (e : LogEntry) (ok : Bool) (s' : Store) : Prop where
  attached : s'.attached = true
  io : s'.io = s.io.tail
  index : s'.index = if ok then applyEntry s.index e else s.index
  line : ok = true → appended X s e = entryLine X e
  log : s'.log = s.log ++ appended X s e ∨
    (ok = true ∧ s'.log = logBytes X (Index.liveEntries s'.index))

/-- Automatic compaction rewrites the log from memory or leaves it. -/
theorem maybeCompact_eq {s : Store} (hs : s.attached = true)
    (hp : s.io.head.compact ≠ some .afterRename) :
    ∃ s', Index.maybeCompact X s = .ok () s' ∧ s'.attached = true ∧ s'.io = s.io ∧
      s'.index = s.index ∧ (s'.log = s.log ∨ s'.log = logBytes X (Index.liveEntries s.index)) := by
  refine ⟨_, maybeCompact_run s, ?_⟩
  split_ifs
  · exact ⟨hs, rfl, rfl, .inl rfl⟩
  · rcases h : s.io.head.compact with _ | _ | _
    · exact ⟨rfl, rfl, rfl, .inr rfl⟩
    · exact ⟨hs, rfl, rfl, .inl rfl⟩
    · exact absurd h hp

/-- An append, the change in memory and what may follow it. -/
theorem writes_of_append {s : Store} (hs : s.attached = true) (e : LogEntry) (sync : Bool)
    {k : Unit → M Unit}
    (hk : ∀ s1 : Store, s1.attached = true → s1.io = s.io.tail →
      ∃ s', k () s1 = .ok () s' ∧ s'.attached = true ∧ s'.io = s1.io ∧ s'.index = s1.index ∧
        (s'.log = s1.log ∨ s'.log = logBytes X (Index.liveEntries s1.index))) :
    let r := (Index.appendEntry X e sync >>= fun _ =>
      (modify fun s => { s with index := applyEntry s.index e } : M Unit) >>= k) s
    Writes X s e (returnedOk r) (storeAfter r) := by
  intro r
  have hr : r = (Index.appendEntry X e sync >>= _) s := rfl
  rw [run_bind, appendEntry_eq hs] at hr
  cases hf : appendFails s sync with
  | true =>
    rw [hf] at hr
    rw [hr]
    exact ⟨hs, rfl, rfl, (by simp [returnedOk]), .inl rfl⟩
  | false =>
    rw [hf] at hr
    obtain ⟨s', h1, h2, h3, h4, h5⟩ := hk { s with
      io := s.io.tail, log := s.log ++ appended X s e, logEntries := s.logEntries + 1,
      index := applyEntry s.index e } hs rfl
    have hr' : r = .ok () s' := hr.trans h1
    rw [hr']
    refine ⟨h2, h3, h4, fun _ => appended_eq_of_not_fails hf, ?_⟩
    rcases h5 with h5 | h5
    · exact .inl h5
    · exact .inr ⟨rfl, by rw [storeAfter, h4]; exact h5⟩

/-- **What an operation that writes one entry does.** -/
theorem entryOp_writes (op : EntryOp) {s : Store} (hs : s.attached = true)
    (hp : s.io.tail.head.compact ≠ some .afterRename) :
    Writes X s op.entry (returnedOk (op.run X s)) (storeAfter (op.run X s)) := by
  have hcompact : ∀ s1 : Store, s1.attached = true → s1.io = s.io.tail →
      ∃ s', Index.maybeCompact X s1 = .ok () s' ∧ s'.attached = true ∧ s'.io = s1.io ∧
        s'.index = s1.index ∧
        (s'.log = s1.log ∨ s'.log = logBytes X (Index.liveEntries s1.index)) :=
    fun s1 h1 h2 => maybeCompact_eq h1 (h2 ▸ hp)
  have hpure : ∀ s1 : Store, s1.attached = true → s1.io = s.io.tail →
      ∃ s', (pure () : M Unit) s1 = .ok () s' ∧ s'.attached = true ∧ s'.io = s1.io ∧
        s'.index = s1.index ∧
        (s'.log = s1.log ∨ s'.log = logBytes X (Index.liveEntries s1.index)) :=
    fun s1 h1 _ => ⟨s1, rfl, h1, rfl, rfl, .inl rfl⟩
  cases op with
  | putManifest m => exact writes_of_append hs _ _ hcompact
  | deleteManifest key => exact writes_of_append hs _ _ hcompact
  | putChunkLocation id loc =>
    have h := writes_of_append (X := X) hs (.putChunkLocation id.toHex loc) false hpure
    rwa [bind_pure] at h
  | deleteChunkLocation id =>
    have h := writes_of_append (X := X) hs (.deleteChunkLocation id.toHex) false hpure
    rwa [bind_pure] at h

/-- An operation that has an entry to write does what writing that entry does. -/
theorem run_of_write {op : IndexOp} {s : Store} {w : EntryOp} (h : op.write? s.index = some w) :
    returnedOk (op.run X s) = returnedOk (w.run X s) ∧
      storeAfter (op.run X s) = storeAfter (w.run X s) := by
  cases op with
  | put op => cases h; exact ⟨rfl, rfl⟩
  | addChunkRef id path => cases h; exact ⟨rfl, rfl⟩
  | decrementChunkRef id =>
    obtain ⟨loc, hloc, rfl⟩ := Option.map_eq_some_iff.1 h
    -- the count only decides which entry is written and what is returned
    have hrun : ∀ (x : M Unit) (b : Bool),
        returnedOk ((discard (x >>= fun _ => pure b) : M Unit) s) = returnedOk (x s) ∧
        storeAfter ((discard (x >>= fun _ => pure b) : M Unit) s) = storeAfter (x s) := by
      intro x b
      simp only [run_discard, bind,
        EStateM.bind, run_pure]
      cases x s <;> exact ⟨rfl, rfl⟩
    have hdec : Index.decrementChunkRef X id s = (if loc.refCount ≤ 1 then
          (Index.deleteChunkLocation X id >>= fun _ => pure true : M Bool)
        else (Index.putChunkLocation X id { loc with refCount := loc.refCount - 1 } >>= fun _ =>
          pure false)) s := by
      simp only [Index.decrementChunkRef, Index.getChunkLocation, run_bind, run_get, run_pure, hloc]
    have hdis : IndexOp.run X (.decrementChunkRef id) s = (discard (if loc.refCount ≤ 1 then
          (Index.deleteChunkLocation X id >>= fun _ => pure true : M Bool)
        else (Index.putChunkLocation X id { loc with refCount := loc.refCount - 1 } >>= fun _ =>
          pure false)) : M Unit) s := by
      simp only [IndexOp.run, run_discard, hdec]
    rw [hdis]
    split_ifs with hle
    · exact hrun _ _
    · exact hrun _ _
  | compact => cases h

/-- The other operations leave the log or rewrite it from memory. -/
theorem run_of_no_write {op : IndexOp} {s : Store} (hs : s.attached = true)
    (hp : s.io.head.compact ≠ some .afterRename) (h : op.write? s.index = none) :
    (storeAfter (op.run X s)).attached = true ∧ (storeAfter (op.run X s)).io = s.io ∧
      (storeAfter (op.run X s)).index = s.index ∧
      ((storeAfter (op.run X s)).log = s.log ∨
        (storeAfter (op.run X s)).log = logBytes X (Index.liveEntries s.index)) := by
  cases op with
  | put op => cases h
  | addChunkRef id path => cases h
  | decrementChunkRef id =>
    have hloc := Option.map_eq_none_iff.1 h
    have hrun : IndexOp.run X (.decrementChunkRef id) s = .ok () s := by
      simp only [IndexOp.run, run_discard, Index.decrementChunkRef, Index.getChunkLocation,
        run_bind, run_get, run_pure, hloc]
    rw [hrun]
    exact ⟨hs, rfl, rfl, .inl rfl⟩
  | compact =>
    rcases hc : s.io.head.compact with _ | _ | _
    · have hrun : IndexOp.run X .compact s = .ok () { s with
          log := logBytes X (Index.liveEntries s.index), attached := true,
          logEntries := (Index.liveEntries s.index).length } := by
        simp only [IndexOp.run, Index.compact, run_bind, run_get, hc]
        rfl
      rw [hrun]
      exact ⟨rfl, rfl, rfl, .inr rfl⟩
    · have hrun : IndexOp.run X .compact s = .error ioError s := by
        simp only [IndexOp.run, Index.compact, run_bind, run_get, hc]
        rfl
      rw [hrun]
      exact ⟨hs, rfl, rfl, .inl rfl⟩
    · exact absurd hc hp

/-! ## Runs -/

/-- The file ends with a complete line. -/
def LineEnd (log : Bytes) : Prop := log = [] ∨ log.getLast? = some Lines.nl

/-- What the operation writes, if anything, starts on a fresh line and ends between characters. -/
def SafeWrite (X : Crates) (s : Store) (op : IndexOp) : Prop :=
  ∀ w, op.write? s.index = some w → appended X s w.entry = [] ∨
    (LineEnd s.log ∧ (Utf8.decode (appended X s w.entry)).isSome)

/-- Every step of the run is safe. -/
def SafeRun (X : Crates) : List IndexOp → Store → Prop
  | [], _ => True
  | op :: ops, s => SafeWrite X s op ∧ SafeRun X ops (storeAfter (op.run X s))

/-- Reopening succeeds and finds, after `es`, a selection of the attempted entries in order that has
every one whose operation returned `Ok`. -/
def AcknowledgedSurvive (X : Crates) (es : List LogEntry) (tried : List (LogEntry × Bool))
    (s : Store) : Prop :=
  ∃ (t : Store) (kept : List (LogEntry × Bool)), Index.openWith X s s.durability = .ok t ∧
    kept.Sublist tried ∧ kept.filter (·.2) = tried.filter (·.2) ∧ t.index = replayLog (es ++ kept.map (·.1))

/-- What may stand behind the complete lines: nothing, or a text that is a strict prefix of the line
of a failed attempt after the ones in the lines. -/
def TornTail (X : Crates) (kept tried : List (LogEntry × Bool)) (tail : Bytes) : Prop :=
  tail = [] ∨ ∃ e l, tail <+: entryLine X e ∧ tail ≠ entryLine X e ∧
    Utf8.decode tail = some l ∧ (kept ++ [(e, false)]).Sublist tried

/-- The run invariant (module doc). -/
structure LogInv (X : Crates) (es : List LogEntry) (tried : List (LogEntry × Bool)) (s : Store) :
    Prop where
  attached : s.attached = true
  compacts : ∀ n, (s.io.get n).compact ≠ some .afterRename
  index : s.index = replayLog (es ++ (tried.filter (·.2)).map (·.1))
  log : ∃ (lines : List LogEntry) (kept : List (LogEntry × Bool)) (tail : Bytes),
    s.log = logBytes X lines ++ tail ∧
    replayLog lines = replayLog (es ++ kept.map (·.1)) ∧ kept.Sublist tried ∧
    kept.filter (·.2) = tried.filter (·.2) ∧ TornTail X kept tried tail

theorem TornTail.snoc {kept tried : List (LogEntry × Bool)} {tail : Bytes} (a : LogEntry × Bool)
    (h : TornTail X kept tried tail) : TornTail X kept (tried ++ [a]) tail := by
  rcases h with h | ⟨e, l, h1, h2, h3, h4⟩
  · exact .inl h
  · exact .inr ⟨e, l, h1, h2, h3, h4.trans (List.sublist_append_left _ _)⟩

/-- A file that ends with a complete line has no torn tail. -/
theorem TornTail.eq_nil {kept tried : List (LogEntry × Bool)} {tail b : Bytes} (hX : X.Lawful)
    (h : TornTail X kept tried tail) (hend : LineEnd (b ++ tail)) : tail = [] := by
  rcases h with h | ⟨e, l, h1, h2, -, -⟩
  · exact h
  · by_contra hne
    have hnl := nl_not_mem_start hX h1 h2
    rcases hend with hend | hend
    · exact hne (List.append_eq_nil_iff.1 hend).2
    · rw [List.getLast?_append_of_ne_nil _ hne] at hend
      exact hnl (List.mem_of_getLast? hend)

/-- The log may be rewritten from memory at any time. -/
theorem LogInv.rewritten {es : List LogEntry} {tried : List (LogEntry × Bool)} {s s' : Store}
    (h : LogInv X es tried s) (ha : s'.attached = true)
    (hio : ∀ n, (s'.io.get n).compact ≠ some .afterRename) (hi : s'.index = s.index)
    (hl : s'.log = logBytes X (Index.liveEntries s.index)) : LogInv X es tried s' where
  attached := ha
  compacts := hio
  index := hi.trans h.index
  log := ⟨_, tried.filter (·.2), [], by rw [hl, List.append_nil],
    by rw [replayLog_liveEntries (h.index ▸ replayLog_keyed _), h.index],
    List.filter_sublist, by simp, .inl rfl⟩

/-- Nothing was attempted and the log stayed as it is. -/
theorem LogInv.unchanged {es : List LogEntry} {tried : List (LogEntry × Bool)} {s s' : Store}
    (h : LogInv X es tried s) (ha : s'.attached = true)
    (hio : ∀ n, (s'.io.get n).compact ≠ some .afterRename) (hi : s'.index = s.index)
    (hl : s'.log = s.log) : LogInv X es tried s' where
  attached := ha
  compacts := hio
  index := hi.trans h.index
  log := hl ▸ h.log

/-- What a write leaves of the invariant before a compaction. -/
theorem LogInv.appended {es : List LogEntry} {tried : List (LogEntry × Bool)} {s s' : Store}
    {e : LogEntry} {ok : Bool} (hX : X.Lawful) (h : LogInv X es tried s)
    (hsafe : appended X s e = [] ∨ (LineEnd s.log ∧ (Utf8.decode (appended X s e)).isSome))
    (ha : s'.attached = true) (hio : s'.io = s.io.tail)
    (hi : s'.index = if ok then applyEntry s.index e else s.index)
    (hline : ok = true → KaidaDB.appended X s e = entryLine X e)
    (hl : s'.log = s.log ++ KaidaDB.appended X s e) :
    LogInv X es (tried ++ [(e, ok)]) s' := by
  obtain ⟨lines, kept, tail, hlog, hrep, hsub, hfil, htail⟩ := h.log
  refine ⟨ha, fun n => hio ▸ h.compacts (n + 1), ?_, ?_⟩
  · rw [hi, List.filter_append, List.map_append, ← List.append_assoc, h.index]
    cases ok
    · simp
    · exact (replayLog_snoc _ _).symm
  · have hpre : KaidaDB.appended X s e <+: entryLine X e := by
      unfold KaidaDB.appended
      split
      · exact List.take_prefix _ _
      · exact List.prefix_rfl
    rcases hsafe with hw | ⟨hend, hutf⟩
    · -- nothing was written, so the operation failed
      have hok : ok = false := by
        cases ok
        · rfl
        · rw [hline rfl] at hw
          exact absurd hw (by simp [entryLine, Lines.record])
      subst hok
      refine ⟨lines, kept, tail, by rw [hl, hw, List.append_nil, hlog], hrep,
        hsub.trans (List.sublist_append_left _ _), by simp [hfil], htail.snoc _⟩
    · have htail0 : tail = [] := htail.eq_nil hX (hlog ▸ hend)
      subst htail0
      rw [List.append_nil] at hlog
      by_cases hfull : KaidaDB.appended X s e = entryLine X e
      · -- a whole line
        refine ⟨lines ++ [e], kept ++ [(e, ok)], [], ?_, ?_, hsub.append (List.Sublist.refl _), ?_,
          .inl rfl⟩
        · rw [hl, hfull, hlog, logBytes_append, logBytes_singleton, List.append_nil]
        · rw [replayLog_snoc, hrep, List.map_append, ← List.append_assoc]
          exact (replayLog_snoc _ _).symm
        · rw [List.filter_append, hfil, List.filter_append]
      · have hok : ok = false := by
          cases ok
          · rfl
          · exact absurd (hline rfl) hfull
        subst hok
        obtain ⟨l, hl'⟩ := Option.isSome_iff_exists.1 hutf
        exact ⟨lines, kept, KaidaDB.appended X s e, by rw [hl, hlog], hrep,
          hsub.trans (List.sublist_append_left _ _), by simp [hfil],
          .inr ⟨e, l, hpre, hfull, hl', hsub.append (List.Sublist.refl _)⟩⟩

/-- One step of a run. -/
theorem LogInv.step {es : List LogEntry} {tried : List (LogEntry × Bool)} {s : Store}
    (hX : X.Lawful) (h : LogInv X es tried s) {op : IndexOp} (hsafe : SafeWrite X s op) :
    LogInv X es (tried ++
        ((op.write? s.index).map fun w => (w.entry, returnedOk (op.run X s))).toList)
      (storeAfter (op.run X s)) := by
  cases hw : op.write? s.index with
  | none =>
    obtain ⟨h1, h2, h3, h4⟩ := run_of_no_write (X := X) h.attached (h.compacts 0) hw
    have hio : ∀ n, ((storeAfter (op.run X s)).io.get n).compact ≠ some .afterRename :=
      fun n => h2 ▸ h.compacts n
    rw [Option.map_none, Option.toList_none, List.append_nil]
    rcases h4 with h4 | h4
    · exact h.unchanged h1 hio h3 h4
    · exact h.rewritten h1 hio h3 h4
  | some w =>
    obtain ⟨hr1, hr2⟩ := run_of_write (X := X) hw
    have hstep := entryOp_writes (X := X) w h.attached (h.compacts 1)
    rw [Option.map_some, Option.toList_some, hr1, hr2]
    rcases hstep.log with hlog | ⟨hok, hlog⟩
    · exact h.appended hX (hsafe w hw) hstep.attached hstep.io hstep.index hstep.line hlog
    · -- the line is written first, and then the log is rewritten
      rw [hok]
      have hidx := hstep.index
      rw [hok, if_pos rfl] at hidx
      have hline := hstep.line hok
      have h1 : LogInv X es (tried ++ [(w.entry, true)]) { s with
          io := s.io.tail, index := applyEntry s.index w.entry,
          log := s.log ++ KaidaDB.appended X s w.entry } :=
        h.appended hX (hsafe w hw) h.attached rfl rfl (fun _ => hline) rfl
      exact h1.rewritten hstep.attached (fun n => hstep.io ▸ h.compacts (n + 1)) hidx
        (hidx ▸ hlog)

/-- A whole run. -/
theorem LogInv.run (hX : X.Lawful) {es : List LogEntry} :
    ∀ (ops : List IndexOp) {tried : List (LogEntry × Bool)} {s : Store}, LogInv X es tried s →
      SafeRun X ops s → LogInv X es (tried ++ attempts X ops s) (runOps X ops s)
  | [], _, _, h, _ => by rwa [attempts, List.append_nil]
  | op :: ops, _, s, h, hsafe => by
    have := LogInv.run hX ops (h.step hX hsafe.1) hsafe.2
    rwa [List.append_assoc] at this

/-- Reopening under the invariant. -/
theorem LogInv.survive (hX : X.Lawful) {es : List LogEntry} {tried : List (LogEntry × Bool)}
    {s : Store} (h : LogInv X es tried s) : AcknowledgedSurvive X es tried s := by
  obtain ⟨lines, kept, tail, hlog, hrep, hsub, hfil, htail⟩ := h.log
  rcases htail with rfl | ⟨e, l, h1, h2, h3, h4⟩
  · have hopen := openLog_logBytes hX lines
    rw [← List.append_nil (logBytes X lines), ← hlog] at hopen
    exact ⟨_, kept, openWith_eq hopen, hsub, hfil, hrep⟩
  · have hopen := openLog_tail hX h1 h2 h3 lines
    rw [← hlog, recoverable] at hopen
    split at hopen
    · refine ⟨_, kept ++ [(e, false)], openWith_eq hopen, h4, by simp [hfil], ?_⟩
      rw [replayLog_snoc, hrep, List.map_append, ← List.append_assoc]
      exact (replayLog_snoc _ _).symm
    · exact ⟨_, kept, openWith_eq hopen, hsub, hfil, hrep⟩

/-- An index opened on complete lines satisfies the invariant. -/
theorem LogInv.opened (hX : X.Lawful) {es : List LogEntry} {s0 s : Store} {d : Durability}
    (hlog : s0.log = logBytes X es) (hopen : Index.openWith X s0 d = .ok s)
    (hc : ∀ n, (s0.io.get n).compact ≠ some .afterRename) : LogInv X es [] s := by
  rw [Index.openWith, hlog, openLog_logBytes hX] at hopen
  cases hopen
  exact ⟨rfl, hc, by simp, es, [], [], by simp, by simp, .slnil, rfl, .inl rfl⟩

/-- **Acknowledged entries survive every run in which no write follows a line left half written.** -/
theorem acknowledged_survive (hX : X.Lawful) {es : List LogEntry} {s0 s : Store} {d : Durability}
    (hlog : s0.log = logBytes X es) (hopen : Index.openWith X s0 d = .ok s)
    (hc : ∀ n, (s0.io.get n).compact ≠ some .afterRename) (ops : List IndexOp)
    (hsafe : SafeRun X ops s) :
    AcknowledgedSurvive X es (attempts X ops s) (runOps X ops s) := by
  have h := (LogInv.opened hX hlog hopen hc).run hX ops hsafe
  rw [List.nil_append] at h
  exact h.survive hX

/-! ## Two runs on an empty directory -/

def zeroId : ChunkId := ⟨Vector.replicate 32 0⟩

/-- The next append fails after `n` bytes. -/
def IoPlan.failAfter (n : Nat) : IoPlan := { IoPlan.ok with append := some (.write n) }

/-- The first append succeeds, the second fails after five bytes, and the process goes on. -/
def tornLater : Store := .emptyDir "data" (IoPlan.first [.ok, .failAfter 5])

theorem acknowledged_survive_tornLater :
    AcknowledgedSurvive .reference []
      (attempts .reference [.addChunkRef zeroId "p", .put (.deleteManifest "a")] tornLater)
      (runOps .reference [.addChunkRef zeroId "p", .put (.deleteManifest "a")] tornLater) := by
  refine acknowledged_survive Crates.reference_lawful (d := .none)
    (show tornLater.log = logBytes .reference [] from rfl) rfl ?_ _
    ⟨?_, ?_, trivial⟩
  · intro n
    rcases n with _ | _ | n
    · decide
    · decide
    · exact (by decide : IoPlan.ok.compact ≠ some .afterRename)
  · rintro w ⟨⟩
    exact .inr ⟨.inl rfl, by decide +kernel⟩
  · rintro w ⟨⟩
    exact .inr ⟨.inr (by decide +kernel), by decide +kernel⟩

/-- The first append fails after five bytes, and all later ones succeed. -/
def tornFirst : Store := .emptyDir "data" (IoPlan.first [.failAfter 5])

/-- The second operation returns `Ok`, and its entry is lost. -/
theorem acknowledged_lost :
    ¬ ∀ (s : Store) (ops : List IndexOp), s.log = logBytes .reference [] →
      Index.openWith .reference s .none = .ok s →
      (∀ n, (s.io.get n).compact = none) →
      AcknowledgedSurvive .reference [] (attempts .reference ops s) (runOps .reference ops s) := by
  intro h
  obtain ⟨t, kept, hopen, hsub, hfil, ht⟩ :=
    h tornFirst [.put (.deleteManifest "a"), .addChunkRef zeroId "p"] rfl rfl fun n => by
      cases n <;> rfl
  have htried : attempts .reference [.put (.deleteManifest "a"), .addChunkRef zeroId "p"] tornFirst
      = [(.deleteManifest "a", false), (.putChunkLocation zeroId.toHex ⟨"p", 1⟩, true)] := by
    decide +kernel
  rw [htried] at hsub hfil
  -- the reopened index is empty, the acknowledged reference should be there
  have hlost : ∀ u, Index.openWith .reference (runOps .reference
      [.put (.deleteManifest "a"), .addChunkRef zeroId "p"] tornFirst) .none = .ok u →
      u.index.chunkLocations[zeroId.toHex]? = none := by
    intro u hu
    have : ((Index.openWith .reference (runOps .reference
      [.put (.deleteManifest "a"), .addChunkRef zeroId "p"] tornFirst) .none).map
        fun u => u.index.chunkLocations[zeroId.toHex]?).toOption = some none := by decide +kernel
    rw [hu] at this
    exact Option.some.inj this
  have hkept : ∀ k ∈ List.sublists [(LogEntry.deleteManifest "a", false),
      (LogEntry.putChunkLocation zeroId.toHex ⟨"p", 1⟩, true)],
      k.filter (·.2) = [(LogEntry.putChunkLocation zeroId.toHex ⟨"p", 1⟩, true)] →
      (replayLog (k.map (·.1))).chunkLocations[zeroId.toHex]? = some ⟨"p", 1⟩ := by
    decide +kernel
  have h1 := hlost t hopen
  rw [ht, List.nil_append, hkept kept (List.mem_sublists.2 hsub) hfil] at h1
  cases h1

end KaidaDB
