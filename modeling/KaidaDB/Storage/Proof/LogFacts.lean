import KaidaDB.Lib.Effects
import KaidaDB.Storage.Index

/-!
# What opening a log rebuilds

`openLog_logBytes`: a log of complete lines is rebuilt to the replay of its entries and stays as it
is. `openLog_tail_*`: with something behind the last line, the text of one more entry is taken in
as it is, a text that is no entry is cut off, and bytes that are no text make opening fail.
A compacted log rebuilds the state it was written from (`replayLog_liveEntries`). `appendEntry_run` and
`maybeCompact_run` are what changes the log.
-/

namespace KaidaDB

open Std Index

variable {X : Crates}

/-- Every manifest is filed under its own key. -/
def IndexState.Keyed (s : IndexState) : Prop :=
  ∀ (k : String) m, s.manifests[k]? = some m → m.key = k

theorem applyEntry_keyed {s : IndexState} (h : s.Keyed) (e : LogEntry) :
    (applyEntry s e).Keyed := by
  intro k m hm
  cases e with
  | putManifest m' =>
    simp only [applyEntry, FinMap.get_insert] at hm
    split at hm
    · rename_i hk
      cases hm
      exact hk
    · exact h k m hm
  | deleteManifest key =>
    simp only [applyEntry, FinMap.get_erase] at hm
    split at hm
    · cases hm
    · exact h k m hm
  | putChunkLocation hex loc => exact h k m hm
  | deleteChunkLocation hex => exact h k m hm

theorem replay_keyed : ∀ (es : List LogEntry) {s : IndexState}, s.Keyed →
    (Replay.replay applyEntry s es).Keyed
  | [], _, h => h
  | e :: es, _, h => replay_keyed es (applyEntry_keyed h e)

theorem replayLog_keyed (es : List LogEntry) : (replayLog es).Keyed :=
  replay_keyed es fun k m h => by simp [IndexState.empty] at h

theorem replayLog_snoc (es : List LogEntry) (e : LogEntry) :
    replayLog (es ++ [e]) = applyEntry (replayLog es) e := Replay.replay_snoc ..

theorem logBytes_append (es fs : List LogEntry) :
    logBytes X (es ++ fs) = logBytes X es ++ logBytes X fs := by
  simp [logBytes, Lines.records_append]

theorem logBytes_singleton (e : LogEntry) : logBytes X [e] = entryLine X e := by
  simp [logBytes, entryLine]

/-! ## The loop over complete lines -/

theorem jsonToString_ne_nil (hX : X.Lawful) (e : LogEntry) : X.jsonToString e ≠ [] := by
  intro h
  -- the text of every other entry would have the empty one as a strict prefix
  have hall : ∀ f, X.jsonToString f = [] := fun f => by
    by_contra hf
    have := hX.rejects_start f [] (List.nil_prefix) (Ne.symm hf)
    rw [← h, hX.round_trip e] at this
    cases this
  have h1 := hX.round_trip (.deleteManifest "a")
  have h2 := hX.round_trip (.deleteManifest "b")
  rw [hall, ← hall (.deleteManifest "b"), h2] at h1
  simp at h1

/-- One complete line. -/
theorem replayLines_record (hX : X.Lawful) (e : LogEntry) (rest : List Bytes) (st : IndexState)
    (n g : Nat) :
    replayLines X (entryLine X e :: rest) st n g
      = replayLines X rest (applyEntry st e) (n + 1) (g + (entryLine X e).length) := by
  have hlen : (entryLine X e).length = (Utf8.encode (X.jsonToString e)).length + 1 := by
    simp [entryLine, Lines.record]
  rw [replayLines, entryLine, Lines.readLine_record (hX.one_line e).2]
  simp only [if_neg (jsonToString_ne_nil hX e), hX.round_trip, ← hlen]
  rfl

theorem replayLines_records (hX : X.Lawful) (rest : List Bytes) :
    ∀ (es : List LogEntry) (st : IndexState) (n g : Nat),
      replayLines X (es.map (entryLine X) ++ rest) st n g
        = replayLines X rest (Replay.replay applyEntry st es) (n + es.length)
            (g + (logBytes X es).length)
  | [], _, _, _ => rfl
  | e :: es, st, n, g => by
    rw [List.map_cons, List.cons_append, replayLines_record hX, replayLines_records hX rest es]
    have hlen : (logBytes X (e :: es)).length
        = (entryLine X e).length + (logBytes X es).length := by
      rw [← List.singleton_append, logBytes_append, List.length_append, logBytes_singleton]
    rw [hlen, Replay.replay_cons, List.length_cons, Nat.add_assoc n 1, Nat.add_comm 1,
      Nat.add_assoc g]

theorem rawLines_logBytes (hX : X.Lawful) (es : List LogEntry) (tail : Bytes) :
    Lines.rawLines (logBytes X es ++ tail) = es.map (entryLine X) ++ Lines.rawLines tail := by
  rw [logBytes, Lines.rawLines_records]
  · simp only [List.map_map]
    rfl
  · intro t ht
    obtain ⟨e, -, rfl⟩ := List.mem_map.1 ht
    exact (hX.one_line e).1

section
variable (hX : X.Lawful)
include hX

/-- The complete lines of a log are read first. -/
theorem openLog_lines (es : List LogEntry) (tail : Bytes) :
    openLog X (logBytes X es ++ tail) = (do
      let r ← replayLines X (Lines.rawLines tail) (replayLog es) es.length (logBytes X es).length
      return (r.state, r.entries,
        if r.truncated then setLen r.goodLen (logBytes X es ++ tail) else logBytes X es ++ tail)) := by
  rw [openLog, rawLines_logBytes hX, replayLines_records hX, Nat.zero_add, Nat.zero_add]
  rfl

/-- **A log of complete lines is rebuilt to the replay of its entries.** -/
theorem openLog_logBytes (es : List LogEntry) :
    openLog X (logBytes X es) = .ok (replayLog es, es.length, logBytes X es) := by
  have h := openLog_lines hX es []
  rwa [List.append_nil] at h

/-- A line that does not parse ends the log. -/
theorem openLog_cut (es : List LogEntry) {tail raw : Bytes} {more : List Bytes} {l : List Char}
    (hraw : Lines.rawLines tail = raw :: more) (hl : Lines.readLine raw = some l) (hne : l ≠ [])
    (hparse : X.jsonFromStr l = none) :
    openLog X (logBytes X es ++ tail) = .ok (replayLog es, es.length, logBytes X es) := by
  have hset : setLen (logBytes X es).length (logBytes X es ++ tail) = logBytes X es := by
    rw [setLen, List.take_left, List.length_append, Nat.sub_eq_zero_of_le (Nat.le_add_right _ _)]
    exact List.append_nil _
  rw [openLog_lines hX, hraw, replayLines, hl]
  simp only [if_neg hne, hparse]
  show Except.ok _ = _
  rw [← hset]
  simp [hset]

/-- A last piece that is no text makes opening fail. -/
theorem openLog_invalid {es : List LogEntry} {tail : Bytes} (hnl : Lines.nl ∉ tail)
    (hne : tail ≠ []) (h : Utf8.decode tail = none) :
    openLog X (logBytes X es ++ tail)
      = .error (.error (.io "stream did not contain valid UTF-8")) := by
  rw [openLog_lines hX, Lines.rawLines_tail hnl hne, replayLines, Lines.readLine_eq_none.2 h]
  rfl

/-- The text of an entry without its newline is taken in, and the file stays without it. -/
theorem openLog_unterminated (es : List LogEntry) (e : LogEntry) :
    openLog X (logBytes X es ++ Utf8.encode (X.jsonToString e))
      = .ok (replayLog (es ++ [e]), es.length + 1,
          logBytes X es ++ Utf8.encode (X.jsonToString e)) := by
  have hne := jsonToString_ne_nil hX e
  have hnl := (hX.one_line e).1
  rw [openLog_lines hX, Lines.rawLines_tail (Lines.nl_not_mem_encode hnl)
    (fun h => hne (Utf8.encode_eq_nil.1 h)), replayLines, Lines.readLine_tail hnl]
  simp only [if_neg hne, hX.round_trip, replayLines, replayLog_snoc]
  rfl

/-- The start of an entry's text is no entry. -/
theorem openLog_torn (es : List LogEntry) {e : LogEntry} {l : List Char}
    (hl : l <+: X.jsonToString e) (hne : l ≠ []) (hneq : l ≠ X.jsonToString e) :
    openLog X (logBytes X es ++ Utf8.encode l)
      = .ok (replayLog es, es.length, logBytes X es) := by
  have hnl : '\n' ∉ l := fun h => (hX.one_line e).1 (hl.subset h)
  exact openLog_cut hX es
    (Lines.rawLines_tail (Lines.nl_not_mem_encode hnl) fun h => hne (Utf8.encode_eq_nil.1 h))
    (Lines.readLine_tail hnl) hne (hX.rejects_start e l hl hneq)

end

/-- Opening is opening the log. -/
theorem openWith_eq {s : Store} {d : Durability} {st : IndexState} {n : Nat} {log : Bytes}
    (h : openLog X s.log = .ok (st, n, log)) :
    openWith X s d = .ok { s with
      durability := d, index := st, logEntries := n, log := log, attached := true } := by
  rw [openWith, h]
  rfl

/-! ## Strict prefixes of a line -/

/-- A strict prefix of a line has no newline. -/
theorem nl_not_mem_start {e : LogEntry} {p : Bytes} (hX : X.Lawful)
    (hp : p <+: entryLine X e) (hne : p ≠ entryLine X e) : Lines.nl ∉ p := by
  obtain ⟨q, hq⟩ := hp
  have hq0 : q ≠ [] := fun h => hne (by rw [← hq, h, List.append_nil])
  intro hmem
  -- the newline of the line is its last byte, so it is in what was cut off
  have hdl : p ++ q.dropLast = Utf8.encode (X.jsonToString e) := by
    rw [← List.dropLast_append_of_ne_nil hq0, hq, entryLine, Lines.record, List.dropLast_concat]
  exact Lines.nl_not_mem_encode (hX.one_line e).1
    (hdl ▸ List.mem_append_left _ hmem)

/-- A strict prefix of a line that is a text is a prefix of the entry's text. -/
theorem prefix_text {e : LogEntry} {p : Bytes} {l : List Char} (hX : X.Lawful)
    (hp : p <+: entryLine X e) (hne : p ≠ entryLine X e) (hl : Utf8.decode p = some l) :
    l <+: X.jsonToString e := by
  have hnl := nl_not_mem_start hX hp hne
  obtain ⟨q, hq⟩ := hp
  rw [Utf8.decode_eq_some.1 hl, entryLine, Lines.record_eq_encode] at hq
  obtain ⟨r, -, hr⟩ := Utf8.decode_of_append hq
  rcases List.eq_nil_or_concat r with rfl | ⟨r', c, rfl⟩
  · -- nothing was cut off: then the newline would be in `p`
    rw [List.append_nil] at hr
    rw [Utf8.decode_eq_some.1 hl, ← hr] at hnl
    exact absurd ((Utf8.mem_encode_ascii (a := '\n') (by decide)).2 (by simp)) hnl
  · rw [List.concat_eq_append, ← List.append_assoc] at hr
    obtain ⟨h1, -⟩ := List.append_inj' hr rfl
    exact ⟨r', h1.symm⟩

/-! ## Compacted logs -/

theorem replay_putManifests (ms : List (String × MediaManifest)) (s : IndexState)
    (h : ∀ p ∈ ms, p.2.key = p.1) :
    Replay.replay applyEntry s (ms.map fun p => .putManifest p.2)
      = { s with manifests := ms.foldl (fun t p => t.insert p.1 p.2) s.manifests } := by
  induction ms generalizing s with
  | nil => rfl
  | cons p ms ih =>
    rw [List.map_cons, Replay.replay_cons, ih _ fun q hq => h q (List.mem_cons_of_mem _ hq)]
    simp only [applyEntry, h p List.mem_cons_self, List.foldl_cons]

theorem replay_putChunkLocations (ls : List (String × ChunkLocation)) (s : IndexState) :
    Replay.replay applyEntry s (ls.map fun p => .putChunkLocation p.1 p.2)
      = { s with chunkLocations := ls.foldl (fun t p => t.insert p.1 p.2) s.chunkLocations } := by
  induction ls generalizing s with
  | nil => rfl
  | cons p ls ih =>
    rw [List.map_cons, Replay.replay_cons, ih]
    simp only [applyEntry, List.foldl_cons]

/-- **The live entries rebuild the state they were taken from.** -/
theorem replayLog_liveEntries {s : IndexState} (h : s.Keyed) : replayLog (liveEntries s) = s := by
  rw [replayLog, liveEntries, Replay.replay_append, replay_putManifests _ _ fun p hp =>
    h p.1 p.2 (ExtTreeMap.mem_toList_iff_getElem?_eq_some.1 hp), replay_putChunkLocations]
  simp only [IndexState.empty, FinMap.foldl_insert_toList]

/-! ## Changing the log -/

/-- The store after bytes were written through `log_file`, which may be open on a file that is no longer
in place. -/
def Store.written (s : Store) (b : Bytes) : Store :=
  { s with io := s.io.tail, log := if s.attached then s.log ++ b else s.log }

theorem Store.written_attached {s : Store} (hs : s.attached = true) (b : Bytes) :
    s.written b = { s with io := s.io.tail, log := s.log ++ b } := by
  rw [written, if_pos hs]

/-- **An append**: all of the line is written, or it fails with a part of it or all of it written. -/
theorem appendEntry_run (e : LogEntry) (sync : Bool) (s : Store) : Index.appendEntry X e sync s =
    match s.io.head.append with
    | none => .ok () { s.written (entryLine X e) with logEntries := s.logEntries + 1 }
    | some (.write n) => .error ioError (s.written ((entryLine X e).take n))
    | some .sync =>
      if sync = true ∧ s.durability = .sync then .error ioError (s.written (entryLine X e))
      else .ok () { s.written (entryLine X e) with logEntries := s.logEntries + 1 } := by
  have hwrite : ∀ b, Index.writeLog b { s with io := s.io.tail } = .ok () (s.written b) := by
    intro b
    rw [Store.written]
    cases s.attached
    · simp only [Index.writeLog, modify, Effects.run_modifyGet, Bool.false_eq_true, if_false]
    · simp only [Index.writeLog, modify, Effects.run_modifyGet, if_true]
  simp only [Index.appendEntry, nextPlan, Effects.run_bind, Effects.run_modifyGet]
  cases hplan : s.io.head.append with
  | none =>
    simp only [hwrite, Effects.run_bind]
    rfl
  | some fault =>
    cases fault with
    | write n =>
      simp only [hwrite, Effects.run_bind]
      rfl
    | sync =>
      have hiff : (sync && decide (s.durability = .sync)) = true ↔ sync = true ∧ s.durability = .sync := by
        rw [Bool.and_eq_true, decide_eq_true_iff]
      by_cases hsync : sync = true ∧ s.durability = .sync
      · simp only [hwrite, Effects.run_bind, Effects.run_get, Store.written, if_pos hsync,
          if_pos (hiff.2 hsync)]
        rfl
      · simp only [hwrite, Effects.run_bind, Effects.run_get, Store.written, if_neg hsync,
          if_neg (mt hiff.1 hsync)]
        rfl

/-- **Automatic compaction**: it never fails, and leaves the store as it is, replaces the log, or
replaces it and keeps the handle on the old one. -/
theorem maybeCompact_run (s : Store) : Index.maybeCompact X s = .ok ()
    (if s.logEntries < compactionFloor ∨ s.logEntries < compactionRatio * s.index.live then s
    else match s.io.head.compact with
      | none => { s with
          log := logBytes X (liveEntries s.index), attached := true,
          logEntries := (liveEntries s.index).length }
      | some .beforeRename => s
      | some .afterRename => { s with log := logBytes X (liveEntries s.index), attached := false }) := by
  simp only [Index.maybeCompact, Effects.run_bind, Effects.run_get]
  by_cases hfloor : s.logEntries < compactionFloor
  · rw [if_pos hfloor, if_pos (.inl hfloor)]
    rfl
  by_cases hratio : s.logEntries < compactionRatio * s.index.live
  · rw [if_neg hfloor, if_pos hratio, if_pos (.inr hratio)]
    rfl
  rw [if_neg hfloor, if_neg hratio, if_neg (not_or.2 ⟨hfloor, hratio⟩)]
  simp only [ignoreError, compact, Effects.run_discard, Effects.run_tryCatch, Effects.run_bind,
    Effects.run_get]
  cases hplan : s.io.head.compact with
  | none => rfl
  | some fault => cases fault <;> rfl

end KaidaDB
