import KaidaDB.Storage.Listing
import KaidaDB.Storage.Proof.Kept

/-!
# What the calls do to chunk files

A call adds chunk files under the names of ids, and removes some; the clock it leaves alone. What that keeps
(`FileRules`) no call leads out of, however the disk behaves (`FileRules.kept`): the clock shows what it
showed (`Shows`), and every chunk file has the name of an id (`Named`). Which files a pass of `gc` leaves is
seen from each file alone (`Swept`).
-/

namespace KaidaDB

open Std Effects

variable {X : Crates} {P : Int → ExtTreeMap String ChunkFile → Prop}

/-- The clock and the chunk files have the property. -/
abbrev OfFiles (P : Int → ExtTreeMap String ChunkFile → Prop) (s : Store) : Prop := P s.clock s.files

/-- What the operations on the disk keep. -/
structure FileRules (P : Int → ExtTreeMap String ChunkFile → Prop) : Prop where
  created : ∀ {now files} (id : ChunkId) (f : ChunkFile), P now files → P now (files.insert id.toHex f)
  removed : ∀ {now files} (hex : String), P now files → P now (files.erase hex)

/-! ## The index -/

namespace OfFiles

theorem nextPlan : Keeps (OfFiles P) nextPlan := fun _ h => h

theorem writeLog (b : Bytes) : Keeps (OfFiles P) (Index.writeLog b) := fun s h => by
  have hsame : (if s.attached then { s with log := s.log ++ b } else s).clock = s.clock ∧
      (if s.attached then { s with log := s.log ++ b } else s).files = s.files := by
    split_ifs
    · exact ⟨rfl, rfl⟩
    · exact ⟨rfl, rfl⟩
  show P (if s.attached then { s with log := s.log ++ b } else s).clock
    (if s.attached then { s with log := s.log ++ b } else s).files
  rw [hsame.1, hsame.2]
  exact h

theorem appendEntry (entry : LogEntry) (sync : Bool) :
    Keeps (OfFiles P) (Index.appendEntry X entry sync) := by
  refine Keeps.bind nextPlan fun plan => ?_
  dsimp only
  cases plan.append with
  | none => exact Keeps.bind (writeLog _) fun _ _ h => h
  | some fault =>
    cases fault with
    | write n => exact Keeps.bind (writeLog _) fun _ => Keeps.throw_bind _
    | sync =>
      refine Keeps.bind (writeLog _) fun _ => Keeps.get_bind fun s => ?_
      split_ifs
      · exact Keeps.throw_bind _
      · exact fun _ h => h

theorem compact : Keeps (OfFiles P) (Index.compact X) := by
  intro s h
  rw [Index.compact, run_bind, run_get]
  dsimp only
  cases s.io.head.compact with
  | none => exact h
  | some fault =>
    cases fault with
    | beforeRename => exact h
    | afterRename => exact h

theorem maybeCompact : Keeps (OfFiles P) (Index.maybeCompact X) := by
  refine Keeps.get_bind fun s => ?_
  split_ifs
  · exact Keeps.pure ()
  · exact Keeps.pure ()
  · exact keeps_ignoreError compact

/-- An append and the change in memory after it. -/
theorem logged (e : LogEntry) (sync : Bool) {α : Type} {k : Unit → M α}
    (hk : ∀ a, Keeps (OfFiles P) (k a)) :
    Keeps (OfFiles P) (Index.appendEntry X e sync >>= fun _ =>
      (modify fun s => { s with index := applyEntry s.index e } : M Unit) >>= k) :=
  Keeps.bind (appendEntry e sync) fun _ => Keeps.bind (fun _ h => h) hk

theorem putChunkLocation (id : ChunkId) (loc : ChunkLocation) :
    Keeps (OfFiles P) (Index.putChunkLocation X id loc) :=
  Keeps.bind (appendEntry _ _) fun _ _ h => h

theorem deleteChunkLocation (id : ChunkId) : Keeps (OfFiles P) (Index.deleteChunkLocation X id) :=
  Keeps.bind (appendEntry _ _) fun _ _ h => h

theorem putManifest (m : MediaManifest) : Keeps (OfFiles P) (Index.putManifest X m) :=
  logged _ _ fun _ => maybeCompact

theorem deleteManifest (key : String) : Keeps (OfFiles P) (Index.deleteManifest X key) :=
  logged _ _ fun _ => maybeCompact

theorem getChunkLocation (id : ChunkId) : Keeps (OfFiles P) (Index.getChunkLocation id) :=
  Keeps.get_bind fun _ => Keeps.pure _

theorem addChunkRef (id : ChunkId) (path : String) : Keeps (OfFiles P) (Index.addChunkRef X id path) :=
  Keeps.bind (getChunkLocation id) fun _ => putChunkLocation id _

theorem decrement (id : ChunkId) : Keeps (OfFiles P) (Index.decrementChunkRef X id) := by
  refine Keeps.bind (getChunkLocation id) fun found => ?_
  cases found with
  | none => exact Keeps.pure false
  | some loc =>
    dsimp only
    split_ifs
    · exact Keeps.bind (deleteChunkLocation id) fun _ => Keeps.pure true
    · exact Keeps.bind (putChunkLocation id _) fun _ => Keeps.pure false

/-- Opening the engine reads the log. -/
theorem openWith {s s' : Store} {durability : Durability} (h : OfFiles P s)
    (hopen : Index.openWith X s durability = .ok s') : OfFiles P s' := by
  rw [Index.openWith] at hopen
  cases hlog : Index.openLog X s.log with
  | error e =>
    rw [hlog] at hopen
    cases hopen
  | ok opened =>
    rw [hlog] at hopen
    cases hopen
    exact h

end OfFiles

/-! ## The files -/

namespace FileRules

variable (R : FileRules P)
include R

theorem writeChunk (id : ChunkId) (data : Bytes) : Keeps (OfFiles P) (BlobStore.writeChunk X id data) := by
  refine Keeps.get_bind fun s => Keeps.bind (Keeps.get_bind fun _ => Keeps.pure _) fun found => ?_
  split_ifs
  · exact Keeps.pure _
  · refine Keeps.bind (Keeps.bind OfFiles.nextPlan fun plan => ?_) fun _ => Keeps.pure _
    split_ifs
    · exact Keeps.throw_bind _
    · exact fun _ h => R.created id _ h

theorem deleteChunk (id : ChunkId) : Keeps (OfFiles P) (BlobStore.deleteChunk id) := by
  refine Keeps.get_bind fun s => ?_
  split_ifs
  · refine Keeps.bind OfFiles.nextPlan fun plan => ?_
    split_ifs
    · exact Keeps.throw_bind _
    · exact fun _ h => R.removed _ h
  · exact Keeps.pure ()

theorem gcFiles (indexed : List String) (now : Int) (grace : Nat)
    (files : List (String × ChunkFile)) (report : GcReport) :
    Keeps (OfFiles P) (StorageEngine.gcFiles indexed now grace files report) := by
  induction files generalizing report with
  | nil => exact Keeps.pure _
  | cons p rest ih =>
    rw [StorageEngine.gcFiles]
    split_ifs
    · exact ih _
    · exact ih _
    · refine Keeps.bind OfFiles.nextPlan fun plan => ?_
      split_ifs
      · exact ih _
      · exact Keeps.bind (fun _ h => R.removed _ h) fun _ => ih _

theorem gc (grace : Nat) : Keeps (OfFiles P) (StorageEngine.gc grace) :=
  Keeps.bind (Keeps.get_bind fun _ => Keeps.pure _) fun _ => Keeps.get_bind fun _ =>
    Keeps.bind (Keeps.get_bind fun _ => Keeps.pure _) fun _ =>
      Keeps.bind (R.gcFiles _ _ _ _ _) fun _ => keeps_gcDangling _ _

/-- **No call leads out of what the operations on the disk keep.** -/
theorem kept : CallsKept X (OfFiles P) where
  toKept := .of_steps R.writeChunk R.deleteChunk OfFiles.addChunkRef OfFiles.decrement OfFiles.putManifest
  releaseDeleted id := keeps_releaseDeleted (OfFiles.decrement id) (R.deleteChunk id)
  deleteManifest := OfFiles.deleteManifest
  gc := R.gc
  compact := OfFiles.compact

end FileRules

/-- The clock shows this time. -/
abbrev Shows (time : Int) : Store → Prop := OfFiles fun now _ => now = time

theorem Shows.kept {time : Int} : CallsKept X (Shows time) := FileRules.kept ⟨fun _ _ h => h, fun _ h => h⟩

/-- Every chunk file has the name of an id. -/
def Named (files : ExtTreeMap String ChunkFile) : Prop :=
  ∀ (hex : String) f, files[hex]? = some f → ∃ id : ChunkId, hex = id.toHex

theorem named_empty : Named ∅ := fun hex f hf => by simp at hf

theorem named_rules : FileRules fun _ => Named where
  created id f h hex g hg := by
    rw [FinMap.get_insert] at hg
    split_ifs at hg with hname
    · exact ⟨id, hname.symm⟩
    · exact h hex g hg
  removed name h hex g hg := by
    rw [FinMap.get_erase] at hg
    split_ifs at hg
    exact h hex g hg

/-! ## Garbage collection -/

theorem nextPlan_calm {u : Store} (hu : u.io = Stream'.const .ok) : nextPlan u = .ok .ok u := by
  obtain ⟨dataDir, durability, index, logEntries, log, attached, files, clock, io⟩ := u
  cases hu
  rfl

/-- `t` is `s` without some files, and which those are is seen from each file alone. -/
structure Swept (keep : String → ChunkFile → Bool) (s t : Store) : Prop where
  rest : t = { s with files := t.files }
  files : ∀ hex : String, t.files[hex]? = s.files[hex]?.filter (keep hex)

/-- Whether a pass of `gc` leaves a file that it goes through. -/
def gcKeeps (indexed : List String) (now : Int) (grace : Nat) (hex : String) (f : ChunkFile) : Bool :=
  decide (hex ∈ indexed) || StorageEngine.isRecent now f.mtime grace

section
variable {s : Store} (hs : s.io = Stream'.const .ok)
include hs

theorem gcFiles_calm (indexed : List String) (now : Int) (grace : Nat) (files : List (String × ChunkFile))
    (report : GcReport) : ∃ report' u,
      StorageEngine.gcFiles indexed now grace files report s = .ok report' u ∧
      u = { s with files := u.files } ∧
      ∀ hex : String, u.files[hex]? = if ∃ p ∈ files, p.1 = hex ∧ gcKeeps indexed now grace p.1 p.2 = false
        then none else s.files[hex]? := by
  induction files generalizing report s with
  | nil => exact ⟨report, s, rfl, rfl, fun hex => by simp⟩
  | cons p rest ih =>
    obtain ⟨name, file⟩ := p
    have hcons : ∀ hex : String, (∃ p ∈ (name, file) :: rest, p.1 = hex ∧
        gcKeeps indexed now grace p.1 p.2 = false) ↔
        (name = hex ∧ gcKeeps indexed now grace name file = false) ∨
        ∃ p ∈ rest, p.1 = hex ∧ gcKeeps indexed now grace p.1 p.2 = false := fun hex => by
      simp only [List.mem_cons, or_and_right, exists_or, exists_eq_left]
    rw [StorageEngine.gcFiles]
    split_ifs with hin hrecent
    · have hkeep : gcKeeps indexed now grace name file = true := by simp [gcKeeps, hin]
      obtain ⟨report', u, hrun, hrest, hfiles⟩ := ih hs report
      exact ⟨report', u, hrun, hrest, fun hex => by simp only [hfiles, hcons, hkeep, Bool.true_eq_false,
        and_false, false_or]⟩
    · have hkeep : gcKeeps indexed now grace name file = true := by simp [gcKeeps, hrecent]
      obtain ⟨report', u, hrun, hrest, hfiles⟩ := ih hs _
      exact ⟨report', u, hrun, hrest, fun hex => by simp only [hfiles, hcons, hkeep, Bool.true_eq_false,
        and_false, false_or]⟩
    · have hkeep : gcKeeps indexed now grace name file = false := by simp [gcKeeps, hin, hrecent]
      obtain ⟨report', u, hrun, hrest, hfiles⟩ := @ih { s with files := s.files.erase name } hs
        { report with orphansRemoved := report.orphansRemoved + 1 }
      refine ⟨report', u, ?_, hrest, fun hex => ?_⟩
      · rw [run_bind, nextPlan_calm hs]
        exact hrun
      · simp only [hfiles, hcons, hkeep, and_true, FinMap.get_erase]
        by_cases hname : name = hex
        · simp [hname]
        · rw [if_neg hname]
          exact if_congr ⟨.inr, fun h => h.resolve_left hname⟩ rfl rfl

theorem Swept.gc (grace : Nat) :
    Swept (fun hex f => decide (hex.utf8ByteSize ≠ 64) ||
      gcKeeps s.index.chunkLocations.keys s.clock grace hex f) s (left (StorageEngine.gc grace s)) := by
  obtain ⟨report, u, hrun, hrest, hfiles⟩ := gcFiles_calm hs s.index.chunkLocations.keys s.clock grace
    (s.files.toList.filter fun p => p.1.utf8ByteSize = 64) {}
  have hgc : StorageEngine.gc grace s = (StorageEngine.gcFiles s.index.chunkLocations.keys s.clock grace
      (s.files.toList.filter fun p => p.1.utf8ByteSize = 64) {} >>= fun report =>
        StorageEngine.gcDangling s.index.chunkLocations.keys report) s := rfl
  rw [run_bind, hrun] at hgc
  have hleft : left (StorageEngine.gc grace s) = u := by
    rw [hgc]
    exact keeps_gcDangling (I := (· = u)) _ report u rfl
  rw [hleft]
  refine ⟨hrest, fun hex => ?_⟩
  rw [hfiles]
  cases hfound : s.files[hex]? with
  | none => simp
  | some f =>
    have hmem : (∃ p ∈ s.files.toList.filter fun p => p.1.utf8ByteSize = 64, p.1 = hex ∧
        gcKeeps s.index.chunkLocations.keys s.clock grace p.1 p.2 = false)
        ↔ hex.utf8ByteSize = 64 ∧ gcKeeps s.index.chunkLocations.keys s.clock grace hex f = false := by
      constructor
      · rintro ⟨⟨name, g⟩, hp, rfl, hkeep⟩
        rw [List.mem_filter, ExtTreeMap.mem_toList_iff_getElem?_eq_some, hfound] at hp
        cases hp.1
        exact ⟨by simpa using hp.2, hkeep⟩
      · rintro ⟨hsize, hkeep⟩
        exact ⟨(hex, f), List.mem_filter.2 ⟨ExtTreeMap.mem_toList_iff_getElem?_eq_some.2 hfound,
          by simpa using hsize⟩, rfl, hkeep⟩
    rw [Option.filter_some, if_congr hmem rfl rfl]
    by_cases hsize : hex.utf8ByteSize = 64
    · cases hkeep : gcKeeps s.index.chunkLocations.keys s.clock grace hex f <;> simp [hsize]
    · simp [hsize]

end

end KaidaDB
