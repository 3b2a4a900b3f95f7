import Mathlib.Data.List.Basic
import KaidaDB.Lib.Effects
import KaidaDB.Crates.Reference
import KaidaDB.Storage.GcAges

/-!
# When a pass honours its grace period

The pass over the files skips the orphans that pass the age test (`gcFilesReading_spec`), and these
are younger than the grace (`not_aged`). It honours the grace where all younger orphans pass it, and
where one does not it counts too few.
-/

namespace KaidaDB

open Std

variable {readable : String → Bool} {indexed : List String} {now : Int} {grace : Nat}

/-! ## The age test -/

theorem testAge_iff (m : Option Int) :
    testAge now m grace = true ↔ ∃ mt, m = some mt ∧ mt ≤ now ∧ now < mt + grace := by
  cases m with
  | none => simp [testAge]
  | some mt =>
    by_cases h : mt ≤ now
    · simp only [testAge, Option.bind_some, durationSince, if_pos h, Option.map_some,
        Option.getD_some, decide_eq_true_eq, Option.some.injEq]
      refine ⟨fun hlt => ⟨mt, rfl, h, by omega⟩, ?_⟩
      rintro ⟨mt', rfl, -, hlt⟩
      omega
    · simp only [testAge, Option.bind_some, durationSince, if_neg h, Option.map_none,
        Option.getD_none, Bool.false_eq_true, Option.some.injEq, false_iff]
      rintro ⟨mt', rfl, hle, -⟩
      exact h hle

/-- With readable metadata it is that of `gc`. -/
theorem testAge_some (mt : Int) :
    testAge now (some mt) grace = StorageEngine.isRecent now mt grace := by
  rw [Bool.eq_iff_iff, testAge_iff, StorageEngine.isRecent]
  simp only [Option.some.injEq, exists_eq_left', Bool.and_eq_true, decide_eq_true_eq]
  omega

theorem gcFilesReading_readable (files : List (String × ChunkFile)) (report : GcReport) :
    StorageEngine.gcFilesReading (fun _ => true) indexed now grace files report
      = StorageEngine.gcFiles indexed now grace files report := by
  induction files generalizing report with
  | nil => rfl
  | cons p rest ih =>
    obtain ⟨hex, file⟩ := p
    rw [StorageEngine.gcFilesReading, StorageEngine.gcFiles]
    simp only [if_true, testAge_some, ih]

/-- Over readable files the pass is `gc`. -/
theorem gcReading_readable (grace : Nat) :
    StorageEngine.gcReading (fun _ => true) grace = StorageEngine.gc grace := by
  unfold StorageEngine.gcReading StorageEngine.gc
  simp only [gcFilesReading_readable]

/-! ## The pass over the files -/

/-- `p` passes the age test. -/
def Young (readable : String → Bool) (now : Int) (grace : Nat) (p : String × ChunkFile) : Prop :=
  readable p.1 = true ∧ p.2.mtime ≤ now ∧ ¬ p.2.Aged now grace

instance (p : String × ChunkFile) : Decidable (Young readable now grace p) :=
  inferInstanceAs (Decidable (_ ∧ _ ∧ _))

theorem testAge_young (p : String × ChunkFile) :
    testAge now (if readable p.1 then some p.2.mtime else none) grace = true
      ↔ Young readable now grace p := by
  rw [testAge_iff]
  cases hr : readable p.1 with
  | false => simp [Young, hr]
  | true =>
    simp only [if_true, Option.some.injEq, exists_eq_left', Young, hr, true_and, ChunkFile.Aged,
      Int.not_le]

/-- The pass only removes orphans that fail the age test, and counts those that pass it. -/
theorem gcFilesReading_spec (readable : String → Bool) (indexed : List String) (now : Int)
    (grace : Nat) (files : List (String × ChunkFile)) (report : GcReport) (s : Store) :
    ∃ report' s', StorageEngine.gcFilesReading readable indexed now grace files report s
        = .ok report' s' ∧ s'.index = s.index ∧
      (∀ (hex : String) f, s.files[hex]? = some f → s'.files[hex]? = some f ∨
        ∃ g, (hex, g) ∈ files ∧ hex ∉ indexed ∧ ¬ Young readable now grace (hex, g)) ∧
      report'.orphansSkipped = report.orphansSkipped
        + files.countP fun p => p.1 ∉ indexed ∧ Young readable now grace p := by
  induction files generalizing report s with
  | nil => exact ⟨report, s, rfl, rfl, fun _ _ h => .inl h, rfl⟩
  | cons p rest ih =>
    obtain ⟨hex, file⟩ := p
    -- what the rest of the pass keeps, the whole pass keeps
    have later : ∀ {u : Store} {a : String} {f : ChunkFile},
        (u.files[a]? = some f ∨ ∃ g, (a, g) ∈ rest ∧ a ∉ indexed ∧ ¬ Young readable now grace (a, g)) →
        u.files[a]? = some f ∨
          ∃ g, (a, g) ∈ (hex, file) :: rest ∧ a ∉ indexed ∧ ¬ Young readable now grace (a, g) :=
      fun h => h.imp_right fun ⟨g, hg, hrest⟩ => ⟨g, List.mem_cons_of_mem _ hg, hrest⟩
    rw [StorageEngine.gcFilesReading, List.countP_cons]
    by_cases hin : hex ∈ indexed
    · obtain ⟨report', s', hrun, hindex, hkept, hcount⟩ := ih report s
      rw [if_pos hin, if_neg (by simp [hin])]
      exact ⟨report', s', hrun, hindex, fun a f hf => later (hkept a f hf), hcount⟩
    rw [if_neg hin]
    by_cases hyoung : Young readable now grace (hex, file)
    · obtain ⟨report', s', hrun, hindex, hkept, hcount⟩ :=
        ih { report with orphansSkipped := report.orphansSkipped + 1 } s
      rw [if_pos ((testAge_young (hex, file)).2 hyoung), if_pos (by simp [hin, hyoung])]
      refine ⟨report', s', hrun, hindex, fun a f hf => later (hkept a f hf), ?_⟩
      dsimp only at hcount
      omega
    rw [if_neg fun h => hyoung ((testAge_young (hex, file)).1 h), if_neg (by simp [hyoung])]
    cases hplan : s.io.head.removeFails with
    | true =>
      obtain ⟨report', s', hrun, hindex, hkept, hcount⟩ := ih report { s with io := s.io.tail }
      refine ⟨report', s', ?_, hindex, fun a f hf => later (hkept a f hf), hcount⟩
      simp only [Effects.run_bind, nextPlan, Effects.run_modifyGet, hplan, if_true, hrun]
    | false =>
      obtain ⟨report', s', hrun, hindex, hkept, hcount⟩ :=
        ih { report with orphansRemoved := report.orphansRemoved + 1 }
          { s with io := s.io.tail, files := s.files.erase hex }
      refine ⟨report', s', ?_, hindex, fun a f hf => ?_, hcount⟩
      · simp only [Effects.run_bind, nextPlan, Effects.run_modifyGet, hplan, modify,
          Bool.false_eq_true, if_false, hrun]
      · by_cases ha : hex = a
        · subst ha
          exact .inr ⟨file, List.mem_cons_self, hin, hyoung⟩
        · exact later (hkept a f (by simp only [FinMap.get_erase, if_neg ha, hf]))

/-- The pass over the index leaves the count alone. -/
theorem gcDangling_spec (hexes : List String) (h : ∀ hex ∈ hexes, ChunkId.fromHex hex ≠ .panic)
    (report : GcReport) (s : Store) : ∃ report', StorageEngine.gcDangling hexes report s
      = .ok report' s ∧ report'.orphansSkipped = report.orphansSkipped := by
  induction hexes generalizing report with
  | nil => exact ⟨report, rfl, rfl⟩
  | cons hex rest ih =>
    have hrest := fun a ha => h a (List.mem_cons_of_mem _ ha)
    rw [StorageEngine.gcDangling]
    cases hid : ChunkId.fromHex hex with
    | panic => exact absurd hid (h hex List.mem_cons_self)
    | err => exact ih hrest report
    | ok id =>
      cases hfound : s.files.contains id.toHex with
      | true =>
        obtain ⟨report', hrun, hskipped⟩ := ih hrest report
        refine ⟨report', ?_, hskipped⟩
        simp only [Effects.run_bind, BlobStore.chunkExists, Effects.run_get, Effects.run_pure,
          hfound, if_true, hrun]
      | false =>
        obtain ⟨report', hrun, hskipped⟩ := ih hrest { report with dangling := report.dangling + 1 }
        refine ⟨report', ?_, hskipped⟩
        simp only [Effects.run_bind, BlobStore.chunkExists, Effects.run_get, Effects.run_pure,
          hfound, Bool.false_eq_true, if_false, hrun]

/-! ## Both passes -/

/-- Where one property implies another, as many elements have both only if all do. -/
theorem countP_eq_iff {α : Type} {p q : α → Bool} {l : List α} (h : ∀ a ∈ l, p a → q a) :
    l.countP p = l.countP q ↔ ∀ a ∈ l, q a → p a := by
  refine ⟨fun heq a ha hq => ?_, fun hback => List.countP_congr fun a ha => ⟨h a ha, hback a ha⟩⟩
  -- those with `q` are those with `p` and those without, so there are none without
  have hsplit := List.countP_eq_countP_filter_add l q p
  have hboth : (l.filter p).countP q = l.countP p := by
    rw [List.countP_filter]
    refine List.countP_congr fun b hb => ⟨fun hqp => ?_, fun hp => ?_⟩
    · exact (Bool.and_eq_true_iff.1 hqp).2
    · exact Bool.and_eq_true_iff.2 ⟨h b hb hp, hp⟩
  have hnone : (l.filter fun b => !p b).countP q = 0 := by omega
  by_contra hp
  exact List.countP_eq_zero.1 hnone a (List.mem_filter.2 ⟨ha, by simpa using hp⟩) hq

theorem mem_orphans {s : Store} {p : String × ChunkFile} : p ∈ s.orphans ↔
    s.files[p.1]? = some p.2 ∧ p.1.utf8ByteSize = 64 ∧ p.1 ∉ s.index.chunkLocations.keys := by
  rw [Store.orphans, List.mem_filter, ExtTreeMap.mem_toList_iff_getElem?_eq_some, decide_eq_true_iff]

/-- A pass takes only orphans that fail the age test and counts those that pass it. -/
theorem gcReading_spec (readable : String → Bool) (grace : Nat) (s : Store)
    (hids : ∀ hex ∈ s.index.chunkLocations.keys, ChunkId.fromHex hex ≠ .panic) :
    ∃ report s', StorageEngine.gcReading readable grace s = .ok report s' ∧
      (∀ (hex : String) f, s.files[hex]? = some f → s'.files[hex]? ≠ some f →
        (hex, f) ∈ s.orphans ∧ ¬ Young readable s.clock grace (hex, f)) ∧
      report.orphansSkipped = s.orphans.countP fun p => Young readable s.clock grace p := by
  obtain ⟨report, s', hfiles, -, hkept, hcount⟩ := gcFilesReading_spec
    readable s.index.chunkLocations.keys s.clock grace
    (s.files.toList.filter fun p => p.1.utf8ByteSize = 64) {} s
  obtain ⟨report', hdangling, hskipped⟩ := gcDangling_spec _ hids report s'
  refine ⟨report', s', ?_, fun hex f hf hgone => ?_, ?_⟩
  · simp only [StorageEngine.gcReading, Index.chunkIdHexes, BlobStore.iterChunkFiles,
      Effects.run_bind, Effects.run_get, Effects.run_pure, hfiles, hdangling]
  · rcases hkept hex f hf with hsame | ⟨g, hg, hnot, hyoung⟩
    · exact absurd hsame hgone
    · obtain ⟨hget, hname⟩ := List.mem_filter.1 hg
      have hget := ExtTreeMap.mem_toList_iff_getElem?_eq_some.1 hget
      obtain rfl : f = g := Option.some.inj (hf.symm.trans hget)
      exact ⟨mem_orphans.2 ⟨hf, by simpa using hname, hnot⟩, hyoung⟩
  · rw [hskipped, hcount, Store.orphans, List.countP_filter, List.countP_filter]
    refine (Nat.zero_add _).trans (List.countP_congr fun p _ => ?_)
    simp only [Bool.decide_and, Bool.and_eq_true, decide_eq_true_eq]
    exact ⟨fun ⟨⟨h1, h2⟩, h3⟩ => ⟨h2, h3, h1⟩, fun ⟨h1, h2, h3⟩ => ⟨⟨h3, h1⟩, h2⟩⟩

/-- A pass honours its grace period where every orphan younger than that can be seen to be so: its
metadata can be read and its time is not later than the clock reading. -/
theorem gc_honours_grace_iff (readable : String → Bool) (grace : Nat) (s : Store)
    (hids : ∀ hex ∈ s.index.chunkLocations.keys, ChunkId.fromHex hex ≠ .panic) :
    ∃ report s', StorageEngine.gcReading readable grace s = .ok report s' ∧
      (HonoursGrace s grace report s' ↔ ∀ p ∈ s.orphans, ¬ p.2.Aged s.clock grace →
        readable p.1 = true ∧ p.2.mtime ≤ s.clock) := by
  obtain ⟨report, s', hrun, hremoved, hcount⟩ := gcReading_spec readable grace s hids
  have hyoung : ∀ p ∈ s.orphans, decide (Young readable s.clock grace p) = true →
      decide (¬ p.2.Aged s.clock grace) = true := fun p _ hp => by
    simpa using (of_decide_eq_true hp).2.2
  refine ⟨report, s', hrun, fun h p hp hnot => ?_, fun h => ⟨fun hex f hf hgone => ?_, ?_⟩⟩
  · -- the counts agree, so all of them pass the test
    have hall := (countP_eq_iff hyoung).1 (hcount.symm.trans h.skipped) p hp (decide_eq_true hnot)
    exact ⟨(of_decide_eq_true hall).1, (of_decide_eq_true hall).2.1⟩
  · obtain ⟨horphan, hfails⟩ := hremoved hex f hf hgone
    refine ⟨horphan, by_contra fun hnot => hfails ?_⟩
    exact ⟨(h _ horphan hnot).1, (h _ horphan hnot).2, hnot⟩
  · rw [hcount]
    refine (countP_eq_iff hyoung).2 fun p hp hnot => decide_eq_true ?_
    have hnot := of_decide_eq_true hnot
    exact ⟨(h p hp hnot).1, (h p hp hnot).2, hnot⟩

/-- An orphan written a second after the clock reading of a pass, beside a chunk file that is indexed. -/
def lateOrphan : Store :=
  { Store.emptyDir "data" (Stream'.const .ok) with
    index := ⟨∅, (∅ : ExtTreeMap String ChunkLocation).insert
      "1111111111111111111111111111111111111111111111111111111111111111" ⟨"", 1⟩⟩
    files := ((∅ : ExtTreeMap String ChunkFile).insert
      "0000000000000000000000000000000000000000000000000000000000000000" ⟨[], 10 ^ 9⟩).insert
      "1111111111111111111111111111111111111111111111111111111111111111" ⟨[], 0⟩ }

theorem lateOrphan_removed : ∃ report s', StorageEngine.gc (3600 * 10 ^ 9) lateOrphan = .ok report s' ∧
    ¬ HonoursGrace lateOrphan (3600 * 10 ^ 9) report s' := by
  have hids : ∀ hex ∈ lateOrphan.index.chunkLocations.keys, ChunkId.fromHex hex ≠ .panic := by
    decide +kernel
  obtain ⟨report, s', hrun, -, hcount⟩ := gcReading_spec (fun _ => true) (3600 * 10 ^ 9) _ hids
  rw [gcReading_readable] at hrun
  refine ⟨report, s', hrun, fun h => ?_⟩
  have hskipped := hcount.symm.trans h.skipped
  revert hskipped
  decide +kernel

theorem gc_honours_grace_iff_late : ∃ report s',
    StorageEngine.gcReading (fun _ => true) 1 lateOrphan = .ok report s' ∧
      (HonoursGrace lateOrphan 1 report s' ↔ ∀ p ∈ lateOrphan.orphans,
        ¬ p.2.Aged lateOrphan.clock 1 → true = true ∧ p.2.mtime ≤ lateOrphan.clock) :=
  gc_honours_grace_iff (fun _ => true) 1 lateOrphan (by decide +kernel)

end KaidaDB
