import KaidaDB.Concurrent.Proof.DeedLog
import KaidaDB.Concurrent.Proof.OneAtATime

/-!
# What survives a power loss

While the name of the log is durable, its durable part is as good as the whole log: it ends with the
last entry of a manifest, and what follows tells of chunk locations only (`Logs`). A chunk file is synced
under a durable name before the log tells of it (`Backs`). So whatever a power loss leaves shows the
objects, unless a delete has removed a chunk file of one and not yet its manifest (`Powered.Untorn`,
`power_loss_spares_acknowledged`). The engine itself never makes the name of the log durable,
neither after it has created the log nor after a compaction (`Powered.Stale`), and what is acknowledged
from then on may be lost (`power_loss_loses_acknowledged`, `Powered.compaction_forgets`).
-/

namespace KaidaDB

open Std Effects PowerLoss

variable {X : Crates}

/-! ## The conditions -/

/-- A store shows the objects of the machine: the same manifests, no chunk file of theirs is missing, and
every object reads the same. -/
structure Machine.ShownBy (X : Crates) (m : Machine) (t : Store) : Prop where
  manifests : t.index.manifests = m.store.index.manifests
  whole : ∀ (key : String) manifest, t.index.manifests[key]? = some manifest →
    ∀ id ∈ manifest.chunks, (t.files[id.toHex]?).isSome
  reads : ∀ key,
    Effects.returned (m.engine.read X key t) = Effects.returned (m.engine.read X key m.store)

namespace Powered

/-- One call at a time. -/
def OneAtATime (p : Powered) : PoweredAction → Prop
  | .call action => p.base.OneAtATime action
  | .syncDir _ => True

/-- Entries of manifests are appended while the name of the log is durable. -/
def LogNamed (X : Crates) (p : Powered) : PoweredAction → Prop
  | .call action => ∀ entry ∈ (p.base.deed X action).appended? p.base.store.index,
    entry.ofManifest = true → (p.disk .log).kept = .current
  | .syncDir _ => True

/-- No delete has removed a chunk file of an object that is still visible, and the action removes none
of an object that is being deleted. -/
def Untorn (X : Crates) (p : Powered) : PoweredAction → Prop
  | .call action => p.base.Complete (fun _ => False) ∧ p.base.Spared X action
  | .syncDir _ => p.base.Complete fun _ => False

instance (p : Powered) : (action : PoweredAction) → Decidable (p.OneAtATime action)
  | .call action => inferInstanceAs (Decidable (p.base.OneAtATime action))
  | .syncDir _ => .isTrue trivial

instance (X : Crates) (p : Powered) : (action : PoweredAction) → Decidable (p.LogNamed X action)
  | .call action => inferInstanceAs (Decidable
      (∀ entry ∈ (p.base.deed X action).appended? p.base.store.index, _ → _))
  | .syncDir _ => .isTrue trivial

/-- Every action of a run meets a condition on the state before it. -/
def Throughout (X : Crates) (P : Powered → PoweredAction → Prop) : Powered → List PoweredAction → Prop
  | _, [] => True
  | p, action :: actions => P p action ∧ Throughout X P (p.step X action) actions

instance Throughout.decidable (X : Crates) {P : Powered → PoweredAction → Prop}
    [∀ p action, Decidable (P p action)] :
    ∀ (p : Powered) (actions : List PoweredAction), Decidable (Throughout X P p actions)
  | _, [] => .isTrue trivial
  | p, action :: actions =>
    haveI := Throughout.decidable X (P := P) (p.step X action) actions
    inferInstanceAs (Decidable (_ ∧ _))

/-- Whatever a power loss in the course of the action leaves, opening it shows the objects as they
are before or after the action. -/
def Survives (X : Crates) (p : Powered) (action : PoweredAction) : Prop :=
  ∀ (n : Nat) (t : Store), Leaves (p.during X action n) t →
    ∃ t', Index.openWith X t .sync = .ok t' ∧
      (p.base.ShownBy X t' ∨ (p.step X action).base.ShownBy X t')

end Powered

/-! ## The parts of a log -/

/-- The bytes that are left of a log rebuild the manifests. -/
def Rebuilds (X : Crates) (left : Option Bytes) (manifests : ExtTreeMap String MediaManifest) : Prop :=
  ∃ es, left.getD [] = logBytes X es ∧ (replayLog es).manifests = manifests

/-- Entries of chunk locations change no manifest. -/
theorem applyEntry_location {e : LogEntry} (he : e.ofManifest = false) (s : IndexState) :
    (applyEntry s e).manifests = s.manifests := by
  cases e with
  | putManifest m => cases he
  | deleteManifest key => cases he
  | putChunkLocation hex loc => rfl
  | deleteChunkLocation hex => rfl

theorem replay_locations {es : List LogEntry} (hes : ∀ e ∈ es, e.ofManifest = false) (s : IndexState) :
    (Replay.replay applyEntry s es).manifests = s.manifests := by
  induction es generalizing s with
  | nil => rfl
  | cons e es ih =>
    obtain ⟨he, hrest⟩ := List.forall_mem_cons.1 hes
    rw [Replay.replay_cons, ih hrest, applyEntry_location he]

/-- A log file whose unsynced part tells of chunk locations only. -/
def Logs (X : Crates) (file : Option (File UInt8)) (s : IndexState) : Prop :=
  ∃ es es', file = some ⟨logBytes X (es ++ es'), logBytes X es⟩ ∧ replayLog (es ++ es') = s ∧
    ∀ e ∈ es', e.ofManifest = false

theorem Logs.written {b : Binding UInt8} {s : IndexState} (h : Logs X b.file s) :
    Rebuilds X b.written s.manifests := by
  obtain ⟨es, es', hfile, rfl, hes'⟩ := h
  refine ⟨es, by rw [Binding.written, hfile]; rfl, ?_⟩
  rw [replayLog, replayLog, Replay.replay_append, replay_locations hes']

/-! ## The invariant -/

/-- A chunk file is synced and its name is durable. -/
structure Backs (b : Binding UInt8) (f : Option ChunkFile) : Prop where
  file : b.file = f.map fun f => ⟨f.bytes, f.bytes⟩
  kept : b.file.isSome → b.kept = .current

/-- The disk has what the machine has in its store, and what is durable of it is good enough. -/
structure Powered.Safe (X : Crates) (p : Powered) : Prop where
  balanced : p.base.Balanced
  filed : p.base.Filed X
  solo : p.base.Solo X
  durability : p.base.store.durability = .sync
  log : (p.disk .log).file.map File.bytes = some p.base.store.log
  logs : Logs X (p.disk .log).file p.base.store.index
  durable : Rebuilds X (p.disk .log).durable p.base.store.index.manifests
  chunks : ∀ id : ChunkId, Backs (p.disk (.chunk id)) p.base.store.files[id.toHex]?

/-- A power loss may leave all chunk files as they are. -/
theorem Powered.leaves_backed {p : Powered}
    (hchunks : ∀ id : ChunkId, Backs (p.disk (.chunk id)) p.base.store.files[id.toHex]?)
    {left : Option Bytes} (hleft : (p.disk .log).Leaves left) :
    Leaves p.disk { p.base.store with log := left.getD [] } where
  log := ⟨left, hleft, rfl⟩
  files id := .inl (by
    show p.base.store.files[id.toHex]?.map ChunkFile.bytes = _
    rw [Binding.written, (hchunks id).file, Option.map_map]
    rfl)

/-- What a power loss leaves has the manifests and the chunk files of a machine. -/
structure Machine.Covered (X : Crates) (m : Machine) (t : Store) : Prop where
  log : Rebuilds X (some t.log) m.store.index.manifests
  files : ∀ (id : ChunkId) f, m.store.files[id.toHex]? = some f →
    (t.files[id.toHex]?).map ChunkFile.bytes = some f.bytes

/-- Opening it shows the objects. -/
theorem Machine.Covered.opens (hX : X.Lawful) {m : Machine} {t : Store} (h : m.Covered X t)
    (hcomplete : m.Complete fun _ => False) :
    ∃ t', Index.openWith X t .sync = .ok t' ∧ m.ShownBy X t' := by
  obtain ⟨es, hlog, hes⟩ := h.log
  have hlog : t.log = logBytes X es := hlog
  have hopen := openWith_eq (d := .sync) (s := t) (hlog ▸ openLog_logBytes hX es)
  have hfile : ∀ {key : String} {manifest}, m.store.index.manifests[key]? = some manifest →
      ∀ id ∈ manifest.chunks, ∃ f, m.store.files[id.toHex]? = some f ∧
        (t.files[id.toHex]?).map ChunkFile.bytes = some f.bytes := by
    intro key manifest hm id hid
    obtain ⟨f, hf⟩ := Option.isSome_iff_exists.1 (hcomplete key manifest hm (fun h => h) id hid)
    exact ⟨f, hf, h.files id f hf⟩
  refine ⟨_, hopen, ⟨hes, fun key manifest hm id hid => ?_,
    fun key => (read_agrees m.engine ?_ ?_).returned_eq⟩⟩
  · have hm : (replayLog es).manifests[key]? = some manifest := hm
    rw [hes] at hm
    obtain ⟨f, -, hleft⟩ := hfile hm id hid
    obtain ⟨f', hf', -⟩ := Option.map_eq_some_iff.1 hleft
    show (t.files[id.toHex]?).isSome
    rw [hf']
    rfl
  · show (replayLog es).manifests[key]? = _
    rw [hes]
  · intro manifest hm id hid
    obtain ⟨f, hf, hleft⟩ := hfile hm id hid
    show (t.files[id.toHex]?).map ChunkFile.bytes = _
    rw [hleft, hf]
    rfl

/-! ## The log during an append -/

theorem flatten_entryLines (es : List LogEntry) : (es.map (entryLine X)).flatten = logBytes X es := by
  rw [logBytes, Lines.records, List.flatMap_map]
  rfl

/-- The log during a compaction. -/
theorem compactOps_take (d : DataDisk) (s : IndexState) (n : Nat) :
    d.run Path.directory ((compactOps X s).take n) .log = d .log ∨
    d.run Path.directory ((compactOps X s).take n) .log = (d .log).replaced
      (some ⟨logBytes X (Index.liveEntries s), logBytes X (Index.liveEntries s)⟩) := by
  rw [← flatten_entryLines]
  exact run_replace_take (by decide) _ n

section
variable {d : DataDisk} {s : Store} {e : LogEntry}

/-- The binding of the log with one more entry in its file. -/
def extended (X : Crates) (b : Binding UInt8) (e : LogEntry) : Binding UInt8 :=
  b.onFile fun f => { f with bytes := f.bytes ++ entryLine X e }

def synced (b : Binding UInt8) : Binding UInt8 := b.onFile fun f => { f with synced := f.bytes }

/-- The log after some of the operations of an append. -/
theorem appendOps_take (hd : s.durability = .sync) (n : Nat) :
    let b := (d.run Path.directory ((appendOps X s e).take n)) .log
    b = d .log ∨ b = extended X (d .log) e ∨ e.ofManifest = true ∧
      (b = synced (extended X (d .log) e) ∨ CompactsAt (applyEntry s.index e) (s.logEntries + 1) ∧
        b = (synced (extended X (d .log) e)).replaced
          (some ⟨logBytes X (Index.liveEntries (applyEntry s.index e)),
            logBytes X (Index.liveEntries (applyEntry s.index e))⟩)) := by
  intro b
  cases n with
  | zero => exact .inl rfl
  | succ n =>
    refine .inr ?_
    by_cases he : e.ofManifest = true
    · cases n with
      | zero => exact .inl (by simp only [b, appendOps, List.take_succ_cons, List.take_zero]; rfl)
      | succ n =>
        refine .inr ⟨he, ?_⟩
        have hb : b = ((d.run Path.directory [.append .log (entryLine X e), .sync .log]).run
            Path.directory ((if CompactsAt (applyEntry s.index e) (s.logEntries + 1) then
              compactOps X (applyEntry s.index e) else []).take n)) .log := by
          simp only [b, appendOps, he, hd, if_true, List.take_succ_cons, List.singleton_append]
          rfl
        rw [hb]
        split_ifs with hat
        · rcases compactOps_take _ _ n with h | h
          · exact .inl h
          · exact .inr ⟨hat, h⟩
        · rw [List.take_nil]
          exact .inl rfl
    · exact .inl (by simp only [b, appendOps, if_neg he, List.take_succ_cons, List.take_nil]; rfl)

/-- The log after all of them. -/
theorem appendOps_run (hd : s.durability = .sync) :
    (d.run Path.directory (appendOps X s e)) .log
      = if e.ofManifest = true then
          if CompactsAt (applyEntry s.index e) (s.logEntries + 1) then
            (synced (extended X (d .log) e)).replaced
              (some ⟨logBytes X (Index.liveEntries (applyEntry s.index e)),
                logBytes X (Index.liveEntries (applyEntry s.index e))⟩)
          else synced (extended X (d .log) e)
        else extended X (d .log) e := by
  have happend : ∀ rest : List DiskOp, d.run Path.directory (.append .log (entryLine X e) :: rest)
      = ((Op.append .log (entryLine X e) : DiskOp).apply Path.directory d).run Path.directory rest :=
    fun _ => rfl
  rw [appendOps, happend, hd, if_pos rfl]
  split_ifs
  · rw [run_append, compactOps, run_replace (by decide), flatten_entryLines]
    rfl
  · rfl
  · rfl

end

/-! ## What is left of the log -/

section
variable {b : Binding UInt8} {s : IndexState} {e : LogEntry}

theorem extended_durable : (extended X b e).durable = b.durable := by
  obtain ⟨file, kept⟩ := b
  cases kept <;> cases file <;> rfl

theorem extended_written : (extended X b e).written = b.written := by
  obtain ⟨file, kept⟩ := b
  cases file <;> rfl

theorem synced_durable (b : Binding UInt8) :
    (synced b).durable = b.durable ∨ b.kept = .current ∧ (synced b).durable = (synced b).written := by
  obtain ⟨file, kept⟩ := b
  cases kept with
  | current => exact .inr ⟨rfl, rfl⟩
  | former left => exact .inl rfl

theorem Logs.append (h : Logs X b.file s) (he : e.ofManifest = false) :
    Logs X (extended X b e).file (applyEntry s e) := by
  obtain ⟨es, es', hfile, rfl, hes'⟩ := h
  refine ⟨es, es' ++ [e], ?_, ?_, ?_⟩
  · rw [extended, Binding.onFile, hfile, ← List.append_assoc, logBytes_append (es ++ es'),
      logBytes_singleton]
    rfl
  · rw [← List.append_assoc, replayLog_snoc]
  · rintro f hf
    rcases List.mem_append.1 hf with hf | hf
    · exact hes' f hf
    · rw [List.mem_singleton.1 hf, he]

theorem Logs.sync (h : Logs X b.file s) : Logs X (synced (extended X b e)).file (applyEntry s e) := by
  obtain ⟨es, es', hfile, rfl, -⟩ := h
  refine ⟨es ++ es' ++ [e], [], ?_, ?_, fun f hf => by cases hf⟩
  · simp only [synced, extended, Binding.onFile, hfile, Option.map_some, List.append_nil]
    rw [logBytes_append (es ++ es'), logBytes_singleton]
  · rw [List.append_nil, replayLog_snoc]

/-- A compacted log. -/
theorem Logs.compacted (h : s.Keyed) :
    Logs X (some ⟨logBytes X (Index.liveEntries s), logBytes X (Index.liveEntries s)⟩) s :=
  ⟨Index.liveEntries s, [], by rw [List.append_nil],
    by rw [List.append_nil, replayLog_liveEntries h], fun f hf => by cases hf⟩

/-- At each point of an append what is left rebuilds the manifests before or after it. -/
theorem Rebuilds.during {d : DataDisk} {s : Store} {n : Nat} {left : Option Bytes}
    (hlogs : Logs X (d .log).file s.index) (hdurable : Rebuilds X (d .log).durable s.index.manifests)
    (hkeyed : s.index.Keyed) (hd : s.durability = .sync)
    (hleft : (d.run Path.directory ((appendOps X s e).take n) .log).Leaves left) :
    Rebuilds X left s.index.manifests ∨ Rebuilds X left (applyEntry s.index e).manifests := by
  have hsync := hlogs.sync (e := e)
  have hsynced : Rebuilds X (synced (extended X (d .log) e)).durable s.index.manifests ∨
      Rebuilds X (synced (extended X (d .log) e)).durable (applyEntry s.index e).manifests := by
    rcases synced_durable (extended X (d .log) e) with h | ⟨-, h⟩
    · rw [h, extended_durable]
      exact .inl hdurable
    · rw [h]
      exact .inr hsync.written
  rcases appendOps_take (X := X) (d := d) (e := e) hd n with h | h | ⟨-, h | ⟨-, h⟩⟩
  · rw [h] at hleft
    rcases hleft with rfl | rfl
    · exact .inl hlogs.written
    · exact .inl hdurable
  · rw [h] at hleft
    rcases hleft with rfl | rfl
    · rw [extended_written]
      exact .inl hlogs.written
    · rw [extended_durable]
      exact .inl hdurable
  · rw [h] at hleft
    rcases hleft with rfl | rfl
    · exact .inr hsync.written
    · exact hsynced
  · rw [h] at hleft
    rcases hleft with rfl | rfl
    · exact .inr (Logs.written (Logs.compacted (applyEntry_keyed hkeyed e)))
    · exact hsynced

/-- The log after an entry that meets the condition. -/
theorem Logs.entered {d : DataDisk} {s : Store} {e : LogEntry}
    (hlog : (d .log).file.map File.bytes = some s.log) (hlogs : Logs X (d .log).file s.index)
    (hdurable : Rebuilds X (d .log).durable s.index.manifests) (hkeyed : s.index.Keyed)
    (hd : s.durability = .sync) (hnamed : e.ofManifest = true → (d .log).kept = .current) :
    let b := (d.run Path.directory (appendOps X s e)) .log
    b.file.map File.bytes = some (logAfter X s e) ∧ Logs X b.file (applyEntry s.index e) ∧
      Rebuilds X b.durable (applyEntry s.index e).manifests := by
  intro b
  have hb := appendOps_run (X := X) (d := d) (e := e) hd
  by_cases he : e.ofManifest = true
  · have hsync := hlogs.sync (e := e)
    have hdurable' : Rebuilds X (synced (extended X (d .log) e)).durable
        (applyEntry s.index e).manifests := by
      have hcurrent : (synced (extended X (d .log) e)).durable
          = (synced (extended X (d .log) e)).written := by
        rw [Binding.durable, show (synced (extended X (d .log) e)).kept = .current from hnamed he]
      rw [hcurrent]
      exact hsync.written
    rw [if_pos he] at hb
    by_cases hat : CompactsAt (applyEntry s.index e) (s.logEntries + 1)
    · rw [if_pos hat] at hb
      have hafter : logAfter X s e = logBytes X (Index.liveEntries (applyEntry s.index e)) :=
        if_pos ⟨he, hat⟩
      rw [show b = _ from hb, hafter]
      exact ⟨rfl, .compacted (applyEntry_keyed hkeyed e), hdurable'⟩
    · rw [if_neg hat] at hb
      have hafter : logAfter X s e = s.log ++ entryLine X e := if_neg fun h => hat h.2
      rw [show b = _ from hb, hafter]
      refine ⟨?_, hsync, hdurable'⟩
      obtain ⟨f, hf, hbytes⟩ := Option.map_eq_some_iff.1 hlog
      simp only [synced, extended, Binding.onFile, hf, Option.map_some, hbytes]
  · rw [if_neg he] at hb
    rw [Bool.not_eq_true] at he
    rw [show b = _ from hb, logAfter_location he, extended_durable, applyEntry_location he]
    refine ⟨?_, hlogs.append he, hdurable⟩
    obtain ⟨f, hf, hbytes⟩ := Option.map_eq_some_iff.1 hlog
    simp only [extended, Binding.onFile, hf, Option.map_some, hbytes]

end

/-! ## The chunk files during a deed -/

/-- The log entries are written to the files of the log. -/
theorem appendOps_chunk {s : Store} {e : LogEntry} {id : ChunkId} :
    ∀ op ∈ appendOps X s e, ¬ op.Touches Path.directory (.chunk id) := by
  have hreplace : ∀ op ∈ compactOps X (applyEntry s.index e),
      ¬ op.Touches Path.directory (.chunk id) := by
    intro op hop
    simp only [compactOps, replaceOps, List.mem_append, List.mem_cons, List.mem_map,
      List.not_mem_nil, or_false] at hop
    rcases hop with (rfl | ⟨piece, -, rfl⟩) | rfl | rfl <;> simp [Op.Touches]
  intro op hop
  rcases List.mem_cons.1 hop with rfl | hop
  · simp [Op.Touches]
  · split_ifs at hop
    · rcases List.mem_append.1 hop with hop | hop
      · rw [List.mem_singleton.1 hop]
        simp [Op.Touches]
      · exact hreplace op hop
    · obtain rfl : op = .sync .log := by simpa using hop
      simp [Op.Touches]
    · exact hreplace op (by simpa using hop)
    · cases hop
    · cases hop

theorem createOps_log {id : ChunkId} {data : Bytes} :
    ∀ op ∈ createOps X id data, ¬ op.Touches Path.directory .log := by
  intro op hop
  simp only [createOps, List.mem_cons, List.not_mem_nil, or_false] at hop
  rcases hop with rfl | rfl | rfl | rfl | rfl <;> simp [Op.Touches, Path.directory]

theorem createOps_chunk {id id' : ChunkId} {data : Bytes} (hne : id' ≠ id) :
    ∀ op ∈ createOps X id data, ¬ op.Names (.chunk id') := by
  intro op hop
  simp only [createOps, List.mem_cons, List.not_mem_nil, or_false] at hop
  rcases hop with rfl | rfl | rfl | rfl | rfl <;> simp [Op.Names, hne]

/-- The chunk is in place, under a name that is durable. -/
theorem createOps_run (d : DataDisk) (id : ChunkId) (data : Bytes) :
    (d.run Path.directory (createOps X id data)) (.chunk id)
      = ⟨some ⟨encodeChunk X data, encodeChunk X data⟩, .current⟩ := by
  simp [createOps, Disk.run, Op.apply, Path.directory, Binding.onFile, Binding.replaced]

theorem unlinkOps {s : Store} {id : ChunkId} {op : DiskOp}
    (hop : op ∈ (Deed.unlinked id).diskOps X s) : op = .unlink (.chunk id) := by
  simp only [Deed.diskOps] at hop
  split_ifs at hop
  · exact List.mem_singleton.1 hop
  · cases hop

/-- Without an entry the log is left alone. -/
theorem Deed.diskOps_log {deed : Deed} {s : Store} (h : deed.appended? s.index = none) :
    ∀ op ∈ deed.diskOps X s, ¬ op.Touches Path.directory .log := by
  intro op hop
  cases deed with
  | created id data => exact createOps_log op hop
  | unlinked id =>
    rw [unlinkOps hop]
    simp [Op.Touches]
  | _ =>
    simp only [Deed.diskOps, h] at hop
    cases hop

section
variable {deed : Deed} {s : Store} {e : LogEntry} (he : deed.appended? s.index = some e)
include he

theorem Deed.diskOps_appended : deed.diskOps X s = appendOps X s e := by
  cases deed with
  | created id data => cases he
  | unlinked id => cases he
  | _ => exact congrArg (·.elim [] (appendOps X s)) he

theorem Deed.files_appended : deed.files X s = s.files := by
  cases deed with
  | created id data => cases he
  | unlinked id => cases he
  | _ => rfl

end

theorem Backs.eq {b : Binding UInt8} {f : ChunkFile} (h : Backs b (some f)) :
    b = ⟨some ⟨f.bytes, f.bytes⟩, .current⟩ := by
  obtain ⟨file, kept⟩ := b
  obtain ⟨rfl, hkept⟩ := h
  obtain rfl : kept = .current := hkept rfl
  rfl

/-- Operations on other files leave a chunk file backed. -/
theorem Backs.unnamed {d : DataDisk} {ops : List DiskOp} {path : Path} {f : Option ChunkFile}
    (h : Backs (d path) f) (hops : ∀ op ∈ ops, ¬ op.Names path) :
    Backs (d.run Path.directory ops path) f where
  file := (run_unnamed_file hops).trans h.file
  kept := by
    rw [run_unnamed_file hops]
    intro hsome
    rw [run_unnamed hops (h.kept hsome)]
    exact h.kept hsome

/-- After a deed the disk has the chunk files that the deed leaves. -/
theorem Backs.deed {d : DataDisk} {s : Store} (h : ∀ id : ChunkId, Backs (d (.chunk id)) s.files[id.toHex]?)
    (deed : Deed) (id : ChunkId) :
    Backs (d.run Path.directory (deed.diskOps X s) (.chunk id)) (deed.files X s)[id.toHex]? := by
  cases he : deed.appended? s.index with
  | some e =>
    rw [Deed.diskOps_appended he, Deed.files_appended he, run_untouched appendOps_chunk]
    exact h id
  | none =>
    cases deed with
    | created other data =>
      simp only [Deed.diskOps, Deed.files, FinMap.get_insert]
      split_ifs with hhex
      · rw [ChunkId.toHex_injective hhex, createOps_run]
        exact ⟨rfl, fun _ => rfl⟩
      · exact (h id).unnamed (createOps_chunk fun hid => hhex (by rw [hid]))
    | unlinked other =>
      simp only [Deed.diskOps, Deed.files, FinMap.get_erase]
      split_ifs with hin hhex hhex
      · rw [ChunkId.toHex_injective hhex]
        refine ⟨?_, ?_⟩ <;> simp [Disk.run, Op.apply, Binding.replaced]
      · refine (h id).unnamed fun op hop => ?_
        rw [List.mem_singleton.1 hop]
        exact fun hid => hhex (by rw [Path.chunk.inj hid])
      · have hnone : s.files[id.toHex]? = none := by
          rw [← hhex]
          simpa using hin
        rw [← hnone]
        exact h id
      · exact h id
    | _ =>
      simp only [Deed.diskOps, he]
      exact h id

/-! ## Power fails during a deed -/

/-- What is found on the disk is what is left of the log, and the chunk files. -/
theorem Machine.Covered.of_leaves {m : Machine} {d : DataDisk} {t : Store} (ht : Powered.Leaves d t)
    {left : Option Bytes} (hleft : t.log = left.getD []) (hlog : Rebuilds X left m.store.index.manifests)
    (hfiles : ∀ (id : ChunkId) f, m.store.files[id.toHex]? = some f →
      d (.chunk id) = ⟨some ⟨f.bytes, f.bytes⟩, .current⟩) : m.Covered X t where
  log := by
    obtain ⟨es, hes, hmanifests⟩ := hlog
    exact ⟨es, hleft.trans hes, hmanifests⟩
  files id f hf := by
    have hid := ht.files id
    rw [hfiles id f hf] at hid
    rcases hid with hid | hid <;> exact hid

namespace Powered

variable {p : Powered}

namespace Safe

section
variable (h : p.Safe X)
include h

theorem leaves_log {left : Option Bytes} (hleft : (p.disk .log).Leaves left) :
    Rebuilds X left p.base.store.index.manifests := by
  rcases hleft with rfl | rfl
  · exact h.logs.written
  · exact h.durable

theorem chunk_eq {id : ChunkId} {f : ChunkFile} (hf : p.base.store.files[id.toHex]? = some f) :
    p.disk (.chunk id) = ⟨some ⟨f.bytes, f.bytes⟩, .current⟩ := Backs.eq (hf ▸ h.chunks id)

/-- Nothing is under way. -/
theorem covered_self {t : Store} (ht : Leaves p.disk t) : p.base.Covered X t := by
  obtain ⟨left, hleft, htlog⟩ := ht.log
  exact .of_leaves ht htlog (h.leaves_log hleft) fun _ _ => h.chunk_eq

/-- A chunk is written that has no file. -/
theorem created_fresh {action : Action} {id : ChunkId} {data : Bytes}
    (hdeed : p.base.deed X action = .created id data) : p.base.store.files[id.toHex]? = none := by
  obtain ⟨a, agent, ha, hd⟩ := Machine.deed_inv hdeed nofun
  have hready := h.solo.ready ha
  cases agent with
  | creating session chunk next =>
    cases hd
    exact hready
  | checking session chunk next =>
    simp only [Agent.deed] at hd
    split at hd <;> cases hd
  | releasing why chunks => cases chunks <;> cases hd
  | _ => cases hd

/-- **At each point of a deed** what is left shows the objects as before or after it. -/
theorem covered {action : Action} {n : Nat} {t : Store}
    (ht : Leaves (p.during X (.call action) n) t) :
    p.base.Covered X t ∨ (p.base.step X action).Covered X t := by
  have he := Machine.step_effect (X := X) h.balanced.attached h.balanced.calm action
  have hindex := he.index
  have hfiles := he.files
  obtain ⟨left, hleft, htlog⟩ := ht.log
  simp only [during, ops] at ht hleft
  cases happended : (p.base.deed X action).appended? p.base.store.index with
  | some e =>
    rw [Deed.diskOps_appended happended] at ht hleft
    rw [Deed.index, happended, Option.elim_some] at hindex
    rw [Deed.files_appended happended] at hfiles
    have hchunk : ∀ (id : ChunkId) f, p.base.store.files[id.toHex]? = some f →
        p.disk.run Path.directory ((appendOps X p.base.store e).take n) (.chunk id)
          = ⟨some ⟨f.bytes, f.bytes⟩, .current⟩ := by
      intro id f hf
      rw [run_untouched fun op hop => appendOps_chunk op (List.mem_of_mem_take hop)]
      exact h.chunk_eq hf
    rcases Rebuilds.during h.logs h.durable h.balanced.keyed h.durability hleft with hlog | hlog
    · exact .inl (.of_leaves ht htlog hlog hchunk)
    · exact .inr (.of_leaves ht htlog (hindex ▸ hlog) (hfiles ▸ hchunk))
  | none =>
    rw [Deed.index, happended, Option.elim_none] at hindex
    have hlog := hleft
    rw [run_untouched fun op hop => Deed.diskOps_log happended op (List.mem_of_mem_take hop)] at hlog
    have hlog := h.leaves_log hlog
    cases hdeed : p.base.deed X action with
    | created id data =>
      -- all chunks that have files are other ones
      rw [hdeed] at ht
      refine .inl (.of_leaves ht htlog hlog fun other f hf => ?_)
      have hne : other ≠ id := by
        rintro rfl
        rw [h.created_fresh hdeed] at hf
        cases hf
      have hother := h.chunk_eq hf
      rw [← hother]
      exact run_unnamed (fun op hop => createOps_chunk hne op (List.mem_of_mem_take hop))
        (by rw [hother])
    | unlinked id =>
      -- the files that stay are other ones
      rw [hdeed] at ht hfiles
      refine .inr (.of_leaves ht htlog (hindex ▸ hlog) fun other f hf => ?_)
      simp only [hfiles, Deed.files, FinMap.get_erase] at hf
      split_ifs at hf with hhex
      rw [← h.chunk_eq hf]
      refine run_untouched fun op hop => ?_
      rw [unlinkOps (List.mem_of_mem_take hop)]
      exact fun hid => hhex (by rw [Path.chunk.inj hid])
    | _ =>
      rw [hdeed] at happended ht
      simp only [Deed.diskOps, happended, Option.elim_none, List.take_nil] at ht
      exact .inl (h.covered_self ht)

/-! ## Runs -/

theorem step_call {action : Action} (hone : p.base.OneAtATime action)
    (hnamed : p.LogNamed X (.call action)) : (p.step X (.call action)).Safe X := by
  have he := Machine.step_effect (X := X) h.balanced.attached h.balanced.calm action
  obtain ⟨hlog, hdurability⟩ := Machine.step_log (X := X) h.balanced.attached h.balanced.calm action
  have hlogged : ((p.step X (.call action)).disk .log).file.map File.bytes
        = some (p.base.step X action).store.log ∧
      Logs X ((p.step X (.call action)).disk .log).file (p.base.step X action).store.index ∧
      Rebuilds X ((p.step X (.call action)).disk .log).durable
        (p.base.step X action).store.index.manifests := by
    rw [hlog, he.index, Deed.index]
    simp only [step, ops]
    cases happended : (p.base.deed X action).appended? p.base.store.index with
    | some e =>
      rw [Deed.diskOps_appended happended]
      exact Logs.entered h.log h.logs h.durable h.balanced.keyed h.durability
        (hnamed e happended)
    | none =>
      rw [run_untouched (Deed.diskOps_log happended)]
      exact ⟨h.log, h.logs, h.durable⟩
  exact
    { balanced := h.balanced.step action
      filed := h.filed.step he (h.solo.unraced action)
      solo := h.solo.step h.balanced.attached h.balanced.calm action hone
      durability := hdurability.trans h.durability
      log := hlogged.1
      logs := hlogged.2.1
      durable := hlogged.2.2
      chunks := fun id => he.files ▸ Backs.deed h.chunks (p.base.deed X action) id }

/-- A directory is synced. -/
theorem step_syncDir (dir : Directory) : (p.step X (.syncDir dir)).Safe X := by
  have hfile : ((p.step X (.syncDir dir)).disk .log).file = (p.disk .log).file :=
    run_unnamed_file fun op hop => by
      rw [List.mem_singleton.1 hop]
      exact id
  exact
    { balanced := h.balanced
      filed := h.filed
      solo := h.solo
      durability := h.durability
      log := (congrArg (Option.map File.bytes) hfile).trans h.log
      logs := hfile ▸ h.logs
      durable := by
        show Rebuilds X (((Op.syncDir dir).apply Path.directory p.disk) .log).durable _
        simp only [Op.apply]
        split_ifs
        · exact h.logs.written
        · exact h.durable
      chunks := fun id => (h.chunks id).unnamed fun op hop => by
        rw [List.mem_singleton.1 hop]
        exact fun hfalse => hfalse }

end

/-- **Every action keeps the disk good enough** where the condition on it is met. -/
theorem step (h : p.Safe X) (action : PoweredAction) (hone : p.OneAtATime action)
    (hnamed : p.LogNamed X action) : (p.step X action).Safe X := by
  cases action with
  | call action => exact h.step_call hone hnamed
  | syncDir dir => exact h.step_syncDir dir

theorem run (h : p.Safe X) {actions : List PoweredAction}
    (hall : Throughout X (fun p action => p.OneAtATime action ∧ p.LogNamed X action) p actions) :
    (p.run X actions).Safe X := by
  induction actions generalizing p with
  | nil => exact h
  | cons action actions ih => exact ih (h.step action hall.1.1 hall.1.2) hall.2

/-- What an opening finds after a power loss shows the objects. -/
theorem survives (hX : X.Lawful) (h : p.Safe X) {action : PoweredAction}
    (huntorn : p.Untorn X action) : p.Survives X action := by
  intro n t ht
  cases action with
  | syncDir dir =>
    have hcomplete : p.base.Complete fun _ => False := huntorn
    have hcovered : p.base.Covered X t := by
      cases n with
      | zero => exact h.covered_self ht
      | succ n =>
        have hall : p.during X (.syncDir dir) (n + 1) = (p.step X (.syncDir dir)).disk := by
          simp only [during, ops, List.take_succ_cons, List.take_nil]
          rfl
        rw [hall] at ht
        exact (h.step_syncDir dir).covered_self ht
    obtain ⟨t', hopen, hshown⟩ := hcovered.opens hX hcomplete
    exact ⟨t', hopen, .inl hshown⟩
  | call action =>
    obtain ⟨hcomplete, hspared⟩ := huntorn
    rcases h.covered ht with hcovered | hcovered
    · obtain ⟨t', hopen, hshown⟩ := hcovered.opens hX hcomplete
      exact ⟨t', hopen, .inl hshown⟩
    · have he := Machine.step_effect (X := X) h.balanced.attached h.balanced.calm action
      have hcomplete' := hcomplete.step h.balanced h.filed he (h.solo.unraced action) hspared
      obtain ⟨t', hopen, hshown⟩ := hcovered.opens hX hcomplete'
      exact ⟨t', hopen, .inr hshown⟩

/-- A power loss may leave the chunk files as they are. -/
theorem leaves (h : p.Safe X) :
    Leaves p.disk { p.base.store with log := (p.disk .log).written.getD [] } :=
  leaves_backed h.chunks (.inl rfl)

/-- If that shows some objects, then none of those of the machine misses a file. -/
theorem complete (hX : X.Lawful) (h : p.Safe X) {m m' : Machine}
    (hshown : ∃ t', Index.openWith X { p.base.store with log := (p.disk .log).written.getD [] } .sync
      = .ok t' ∧ (m.ShownBy X t' ∨ m'.ShownBy X t')) : p.base.Complete fun _ => False := by
  obtain ⟨t', hopen, hshown⟩ := hshown
  obtain ⟨es, hlog, hes⟩ := h.leaves_log (.inl rfl)
  rw [openWith_eq (hlog ▸ openLog_logBytes hX es)] at hopen
  cases hopen
  intro key manifest hm _
  have hm : (replayLog es).manifests[key]? = some manifest := by
    rw [hes]
    exact hm
  rcases hshown with hshown | hshown
  · exact hshown.whole key manifest hm
  · exact hshown.whole key manifest hm

/-- Objects survive a power loss only while none of them is torn. -/
theorem untorn (hX : X.Lawful) (h : p.Safe X) {action : PoweredAction}
    (hsurvives : p.Survives X action) : p.Untorn X action := by
  have hcomplete : p.base.Complete fun _ => False := h.complete hX (hsurvives 0 _ h.leaves)
  cases action with
  | syncDir dir => exact hcomplete
  | call action =>
    refine ⟨hcomplete, fun id hdeed p' hp' key hkey manifest hm hid => ?_⟩
    have hd : p.base.deed X action = .unlinked id := by
      cases hd : p.base.deed X action with
      | unlinked id' =>
        rw [hd] at hdeed
        cases hdeed
        rfl
      | _ =>
        rw [hd] at hdeed
        cases hdeed
    have hone : p.base.OneAtATime action := by
      cases action with
      | advance a => trivial
      | _ => cases hd
    have hnamed : p.LogNamed X (.call action) := fun entry hentry => by
      rw [hd] at hentry
      cases hentry
    -- after the whole action the file is gone
    have h' : (p.step X (.call action)).Safe X := h.step_call hone hnamed
    have hall : p.during X (.call action) (p.ops X (.call action)).length
        = (p.step X (.call action)).disk := by
      rw [during, List.take_length]
      rfl
    have hcomplete' : (p.base.step X action).Complete fun _ => False :=
      h'.complete hX (hsurvives _ _ (by rw [hall]; exact h'.leaves))
    have he := Machine.step_effect (X := X) h.balanced.attached h.balanced.calm action
    have hm' : (p.base.step X action).store.index.manifests[key]? = some manifest := by
      rw [he.index, hd]
      exact hm
    have hfile := hcomplete' key manifest hm' (fun h => h) id hid
    rw [he.files, hd] at hfile
    simp [Deed.files] at hfile

/-- While nothing is being deleted, no object is torn. -/
theorem untorn_of_not_deleting (h : p.Safe X) (hnone : ∀ key, ¬ p.base.Deleting key)
    (action : PoweredAction) : p.Untorn X action := by
  have hcomplete : p.base.Complete fun _ => False := fun key manifest hm _ =>
    h.filed.complete h.balanced key manifest hm (hnone key)
  cases action with
  | syncDir dir => exact hcomplete
  | call action => exact ⟨hcomplete, fun _ _ p' hp' key hkey => absurd ⟨p', hp', hkey⟩ (hnone key)⟩

theorem start (engine : StorageEngine) (dataDir : String) : (start engine dataDir).Safe X where
  balanced :=
    have h := Machine.Balanced.start engine dataDir
    ⟨h.attached, h.calm, h.keyed, h.counted, h.locked, h.knows, h.exact⟩
  filed := by
    have h := Machine.Filed.start (X := X) engine dataDir
    exact ⟨h.indexed, h.held⟩
  solo := by
    constructor
    · intro a b agent agent' ha
      simp [Powered.start, Machine.start] at ha
    · intro a agent ha
      simp [Powered.start, Machine.start] at ha
  durability := rfl
  log := rfl
  logs := ⟨[], [], rfl, rfl, nofun⟩
  durable := ⟨[], rfl, rfl⟩
  chunks id := ⟨by simp [Powered.start, Machine.start, Store.emptyDir], fun h => by cases h⟩

end Safe

/-! ## A log without a durable name -/

/-- Something else is durable under the name of the log. -/
structure Stale (left : Option Bytes) (p : Powered) : Prop where
  balanced : p.base.Balanced
  former : (p.disk .log).kept = .former left
  chunks : ∀ id : ChunkId, Backs (p.disk (.chunk id)) p.base.store.files[id.toHex]?
  durability : p.base.store.durability = .sync

namespace Stale

variable {left : Option Bytes}

/-- No call makes the name of the log durable. -/
theorem step (h : p.Stale left) (action : Action) : (p.step X (.call action)).Stale left := by
  have he := Machine.step_effect (X := X) h.balanced.attached h.balanced.calm action
  refine ⟨h.balanced.step action, ?_,
    fun id => he.files ▸ Backs.deed h.chunks (p.base.deed X action) id,
    (Machine.step_log h.balanced.attached h.balanced.calm action).2.trans h.durability⟩
  simp only [Powered.step, ops]
  cases happended : (p.base.deed X action).appended? p.base.store.index with
  | some e =>
    rw [Deed.diskOps_appended happended, appendOps_run h.durability]
    split_ifs
    · have hstale : (synced (extended X (p.disk .log) e)).durable = left := by
        rw [Binding.durable, show (synced (extended X (p.disk .log) e)).kept = _ from h.former]
      exact congrArg Kept.former hstale
    · exact h.former
    · exact h.former
  | none =>
    rw [run_untouched (Deed.diskOps_log happended)]
    exact h.former

theorem run (h : p.Stale left) (actions : List Action) :
    (p.run X (actions.map .call)).Stale left := by
  induction actions generalizing p with
  | nil => exact h
  | cons action actions ih => exact ih (h.step action)

/-- A power loss may leave it, with all chunk files. -/
theorem leaves (h : p.Stale left) :
    Leaves p.disk { p.base.store with log := left.getD [] } :=
  leaves_backed h.chunks (.inr (by rw [Binding.durable, h.former]))

theorem start (engine : StorageEngine) (dataDir : String) : (start engine dataDir).Stale none where
  balanced := (Safe.start (X := .reference) engine dataDir).balanced
  former := rfl
  chunks := (Safe.start (X := .reference) engine dataDir).chunks
  durability := rfl

/-- Where no log is durable under the name, objects are lost. -/
theorem lost (hX : X.Lawful) (h : p.Stale none) {key : String}
    (hstored : (p.base.store.index.manifests[key]?).isSome) (now : Int) :
    ¬ p.Survives X (.call (.tick now)) := by
  intro hsurvives
  obtain ⟨t', hopen, hshown⟩ := hsurvives 0 _ h.leaves
  rw [openWith_eq (d := .sync) (openLog_logBytes hX [])] at hopen
  cases hopen
  have hempty : ∅ = p.base.store.index.manifests := by
    rcases hshown with hshown | hshown
    · exact hshown.manifests
    · exact hshown.manifests
  rw [← hempty] at hstored
  simp at hstored

/-- A compaction that syncs no directory leaves the log without a durable name. -/
theorem of_compaction (h : p.Safe X) {action : Action} {e : LogEntry}
    (he : (p.base.deed X action).appended? p.base.store.index = some e) (hm : e.ofManifest = true)
    (hat : CompactsAt (applyEntry p.base.store.index e) (p.base.store.logEntries + 1)) :
    (p.step X (.call action)).Stale ((p.step X (.call action)).disk .log).durable := by
  have heffect := Machine.step_effect (X := X) h.balanced.attached h.balanced.calm action
  refine ⟨h.balanced.step action, ?_,
    fun id => heffect.files ▸ Backs.deed h.chunks (p.base.deed X action) id,
    (Machine.step_log h.balanced.attached h.balanced.calm action).2.trans h.durability⟩
  simp only [Powered.step, ops]
  rw [Deed.diskOps_appended he, appendOps_run h.durability, if_pos hm, if_pos hat]
  rfl

end Stale

/-- Whatever is acknowledged after a compaction, a power loss may leave the manifests of that time. -/
theorem compaction_forgets (h : p.Safe X) {action : Action} (hone : p.base.OneAtATime action)
    (hnamed : p.LogNamed X (.call action)) {e : LogEntry}
    (he : (p.base.deed X action).appended? p.base.store.index = some e) (hm : e.ofManifest = true)
    (hat : CompactsAt (applyEntry p.base.store.index e) (p.base.store.logEntries + 1))
    (actions : List Action) :
    ∃ t, Leaves ((p.step X (.call action)).run X (actions.map .call)).disk t ∧
      Rebuilds X (some t.log) (p.step X (.call action)).base.store.index.manifests := by
  obtain ⟨es, hes, hmanifests⟩ := (h.step_call hone hnamed).durable
  exact ⟨_, ((Stale.of_compaction h he hm hat).run actions).leaves, es, hes, hmanifests⟩

end Powered

/-- **Acknowledged operations survive a power loss.** In a run of calls, one at a time, that append the
entries of manifests while the name of the log is durable, whatever a power loss leaves at some moment
opens, with all objects as they have just been, exactly if it does not come in the middle of a delete,
after a chunk file is gone and before the manifest is. -/
theorem power_loss_spares_acknowledged (X : Crates) (hX : X.Lawful) (engine : StorageEngine) (dataDir : String)
    (actions : List PoweredAction) (action : PoweredAction)
    (hrun : Powered.Throughout X (fun p action => p.OneAtATime action ∧ p.LogNamed X action)
      (.start engine dataDir) actions) :
    let p := (Powered.start engine dataDir).run X actions
    p.Survives X action ↔ p.Untorn X action := by
  have h := (Powered.Safe.start engine dataDir).run hrun
  exact ⟨h.untorn hX, h.survives hX⟩

/-- An object is stored and moved, and another one is stored and deleted. -/
def orderlyRun : List Action :=
  [.begin 0 "a" "" [], .write 0 [1]] ++ advances 0 5 ++ [.finish 0] ++ advances 0 5
    ++ [.rename 0 "a" "b"] ++ advances 0 6 ++ [.begin 0 "c" "" [], .write 0 [2]] ++ advances 0 5
    ++ [.finish 0] ++ advances 0 5 ++ [.delete 0 "c"] ++ advances 0 6

theorem power_loss_spares_orderly :
    ((Powered.start ⟨1, 0, false⟩ "data").run .reference
      (.syncDir .index :: orderlyRun.map .call)).Survives .reference (.call (.begin 0 "d" "" [])) := by
  have hrun : Powered.Throughout .reference (fun p action => p.OneAtATime action ∧
      p.LogNamed .reference action) (Powered.start ⟨1, 0, false⟩ "data")
      (.syncDir .index :: orderlyRun.map .call) := by decide +kernel
  have hdone : ((Powered.start ⟨1, 0, false⟩ "data").run .reference
      (.syncDir .index :: orderlyRun.map .call)).base.agents.toList = [] := by decide +kernel
  refine (power_loss_spares_acknowledged .reference Crates.reference_lawful ⟨1, 0, false⟩ "data" _ _
    hrun).2 (((Powered.Safe.start _ _).run hrun).untorn_of_not_deleting ?_ _)
  rintro key ⟨p, hp, -⟩
  rw [hdone] at hp
  cases hp

/-- An object is stored. -/
def storeRun : List Action :=
  [.begin 0 "a" "" [], .write 0 [1]] ++ advances 0 5 ++ [.finish 0] ++ advances 0 5

/-- The log was created and its directory never synced: the object is gone. -/
theorem power_loss_loses_acknowledged :
    let start := Powered.start ⟨1, 0, false⟩ "data"
    let p := start.run .reference (storeRun.map .call)
    Powered.Throughout .reference Powered.OneAtATime start (storeRun.map .call) ∧
      p.base.agents.toList = [] ∧ (p.base.store.index.manifests["a"]?).isSome ∧
      ¬ p.Survives .reference (.call (.tick 0)) := by
  have hstored : (((Powered.start ⟨1, 0, false⟩ "data").run .reference
      (storeRun.map .call)).base.store.index.manifests["a"]?).isSome := by decide +kernel
  exact ⟨by decide +kernel, by decide +kernel, hstored,
    ((Powered.Stale.start _ _).run storeRun).lost Crates.reference_lawful hstored 0⟩

end KaidaDB
