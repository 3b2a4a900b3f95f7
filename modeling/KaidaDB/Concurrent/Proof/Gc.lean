import KaidaDB.Concurrent.GcMachine
import KaidaDB.Concurrent.Proof.Files

/-!
# Garbage collection beside other calls

`GcMachine.Guarded`: the pass keeps the file of every chunk that is needed and that it may still
remove, and the file it is about to remove is gone or not needed. Calls that are timely keep this,
so a pass spares all files that are needed (`gc_spares_needed`). A flush that is not timely loses
its file: one that puts it in place after the pass has read the clock, since a file from the future
is not recent (`gc_removes_late_file`).
-/

namespace KaidaDB

open Std Effects

variable {X : Crates}

namespace GcMachine

variable {m : GcMachine} {action : Action} {hex : String} {mtime : Int}

theorem needed_iff : m.Needed X hex ↔ (m.base.store.index.chunkLocations[hex]?).isSome ∨
    ∃ id, id.toHex = hex ∧ m.base.InFlight X id := by
  unfold Needed
  rw [FinMap.contains_iff]
  refine or_congr_right ⟨?_, ?_⟩
  · rintro ⟨p, hp, id, hid, rfl⟩
    exact ⟨id, rfl, p, hp, hid⟩
  · rintro ⟨id, rfl, p, hp, hid⟩
    exact ⟨p, hp, id, hid, rfl⟩

/-! ## What calls change -/

section
variable {m' : Machine} (he : Machine.Effect X m.base m' (m.base.deed X action))
include he

/-- A file that a flush comes to rely on has the modification time of the deed. -/
theorem relied_mtime (hr : (m.base.deed X action).relied? m.base.store = some (hex, mtime))
    {file : ChunkFile} (hf : m'.store.files[hex]? = some file) : file.mtime = mtime := by
  rw [he.files] at hf
  cases hd : m.base.deed X action with
  | found id =>
    rw [hd] at hr hf
    obtain ⟨file', hf', heq⟩ := Option.map_eq_some_iff.1 hr
    obtain ⟨rfl, rfl⟩ := Prod.mk.inj heq
    cases hf.symm.trans hf'
    rfl
  | created id data =>
    rw [hd] at hr hf
    obtain ⟨rfl, rfl⟩ := Prod.mk.inj (Option.some.inj hr)
    simp only [Deed.files, FinMap.get_insert, if_true] at hf
    cases hf
    rfl
  | _ => rw [hd] at hr; cases hr

/-- Other files are at most removed. -/
theorem file_before (hr : ∀ mtime, (m.base.deed X action).relied? m.base.store ≠ some (hex, mtime))
    {file : ChunkFile} (hf : m'.store.files[hex]? = some file) :
    m.base.store.files[hex]? = some file := by
  rw [he.files] at hf
  cases hd : m.base.deed X action with
  | created id data =>
    rw [hd] at hr hf
    simp only [Deed.files, FinMap.get_insert] at hf
    split_ifs at hf with hx
    · exact absurd (congrArg (fun h => some (h, m.base.store.clock)) hx) (hr _)
    · exact hf
  | unlinked id =>
    rw [hd] at hf
    simp only [Deed.files, FinMap.get_erase] at hf
    split_ifs at hf
    exact hf
  | _ => rwa [hd] at hf

/-- A chunk becomes needed when a flush comes to rely on its file. -/
theorem needed_before (hr : ∀ mtime, (m.base.deed X action).relied? m.base.store ≠ some (hex, mtime))
    (hn : ({ m with base := m' } : GcMachine).Needed X hex) : m.Needed X hex := by
  rw [needed_iff] at hn ⊢
  rcases hn with hloc | ⟨id, rfl, hin⟩
  · have hloc : (m'.store.index.chunkLocations[hex]?).isSome := hloc
    rw [he.index] at hloc
    rcases Machine.indexed_after hloc with hold | ⟨id, path, hd, rfl⟩
    · exact .inl hold
    · exact .inr ⟨id, rfl, Machine.deed_referenced hd⟩
  · rcases he.inFlight id hin with hold | hd | ⟨data, hd⟩
    · exact .inr ⟨id, rfl, hold⟩
    · obtain ⟨file, hfile⟩ := Option.isSome_iff_exists.1 (Machine.deed_found hd)
      refine absurd ?_ (hr file.mtime)
      rw [hd, Deed.relied?, hfile]
      rfl
    · refine absurd ?_ (hr m.base.store.clock)
      rw [hd]
      rfl

end

/-! ## The invariant -/

/-- The pass keeps the file if it is there and needed. -/
def KeepsNeeded (X : Crates) (m : GcMachine) (view : GcView) (hex : String) : Prop :=
  ∀ file, m.base.store.files[hex]? = some file → m.Needed X hex → view.Keeps hex file.mtime

/-- What the pass has to do with files that are needed. -/
def GuardedBy (X : Crates) (m : GcMachine) : Pass → Prop
  | .listing view => ∀ hex, m.KeepsNeeded X view hex
  | .visiting view files _ => ∀ hex ∈ files, m.KeepsNeeded X view hex
  | .removing view hex files _ => (m.base.store.files[hex]? = none ∨ ¬ m.Needed X hex) ∧
    ∀ hex' ∈ files, m.KeepsNeeded X view hex'
  | _ => True

structure Guarded (X : Crates) (m : GcMachine) : Prop where
  balanced : m.base.Balanced
  pass : ∀ pass ∈ m.pass, m.GuardedBy X pass

theorem KeepsNeeded.call {m' : Machine} {view : GcView} (h : m.KeepsNeeded X view hex)
    (he : Machine.Effect X m.base m' (m.base.deed X action))
    (hr : ∀ mtime, (m.base.deed X action).relied? m.base.store = some (hex, mtime) →
      view.Keeps hex mtime) : KeepsNeeded X { m with base := m' } view hex := by
  intro file hf hn
  by_cases hrelied : ∃ mtime, (m.base.deed X action).relied? m.base.store = some (hex, mtime)
  · obtain ⟨mtime, hrelied⟩ := hrelied
    rw [relied_mtime he hrelied hf]
    exact hr mtime hrelied
  · have hnot := not_exists.1 hrelied
    exact h file (file_before he hnot hf) (needed_before he hnot hn)

theorem GuardedBy.call {m' : Machine} {pass : Pass} (h : m.GuardedBy X pass)
    (he : Machine.Effect X m.base m' (m.base.deed X action))
    (ht : ∀ p ∈ (m.base.deed X action).relied? m.base.store, pass.Allows p.1 p.2) :
    GuardedBy X { m with base := m' } pass := by
  cases pass with
  | clocking grace indexed => trivial
  | listing view => exact fun hex => (h hex).call he fun mtime hr => ht _ hr
  | visiting view files report =>
    exact fun hex hmem => (h hex hmem).call he fun mtime hr => ht _ hr hmem
  | removing view hex files report =>
    refine ⟨?_, fun hex' hmem => (h.2 hex' hmem).call he fun mtime hr => (ht _ hr).2 hmem⟩
    have hnot : ∀ mtime, (m.base.deed X action).relied? m.base.store ≠ some (hex, mtime) :=
      fun mtime hr => (ht _ hr).1 rfl
    rcases h.1 with hnone | hneed
    · refine .inl (Option.eq_none_iff_forall_ne_some.2 fun file hf => ?_)
      rw [file_before he hnot hf] at hnone
      cases hnone
    · exact .inr fun hn => hneed (needed_before he hnot hn)
  | probing hexes report => trivial

/-! ## Steps of the pass -/

/-- `fs::remove_file` removes the file, or fails where there is none. -/
theorem removeFile_eq (X : Crates) {s : Store} (hs : s.attached = true) (hcalm : s.view.Calm) (hex : String) :
    ∃ (r : Except Fail Unit) (s' : Store), BlobStore.removeFile hex s = result r s' ∧
      s'.attached = true ∧ s'.view.Calm ∧ s'.index = s.index ∧
      ∀ a : String, s'.files[a]? = if hex = a then none else s.files[a]? := by
  have hplan : Does (lens X false) nextPlan s.view (.ok s.view.io.head)
      { s.view with io := s.view.io.tail } := does_nextPlan
  by_cases hf : s.files.contains hex = true
  · have hx : Does (lens X false) (BlobStore.removeFile hex) s.view (.ok ())
        { s.view with files := s.files.erase hex, io := s.view.io.tail } := by
      refine Does.bind hplan (Does.get_bind fun u _ hu => ?_)
      rw [show u.files = s.files from congrArg View.files hu, hcalm.remove, hf]
      refine does_modifyFiles fun v hv => ?_
      rw [show v.files = s.files from congrArg View.files hv]
    obtain ⟨s', h1, h2, h3⟩ := hx s ⟨hs, nofun⟩ rfl
    refine ⟨_, s', h1, h2.1, ?_, congrArg View.index h3, fun a => ?_⟩
    · exact (congrArg View.io h3).trans (hcalm.tail.trans hcalm)
    · rw [show s'.files = s.files.erase hex from congrArg View.files h3, FinMap.get_erase]
  · have hx : Does (lens X false) (BlobStore.removeFile hex) s.view (.error ioError)
        { s.view with io := s.view.io.tail } := by
      refine Does.bind hplan (Does.get_bind fun u _ hu => ?_)
      rw [show u.files = s.files from congrArg View.files hu, hcalm.remove,
        Bool.eq_false_iff.2 hf]
      exact Does.bind_error (Does.throw _)
    obtain ⟨s', h1, h2, h3⟩ := hx s ⟨hs, nofun⟩ rfl
    refine ⟨_, s', h1, h2.1, ?_, congrArg View.index h3, fun a => ?_⟩
    · exact (congrArg View.io h3).trans (hcalm.tail.trans hcalm)
    · rw [show s'.files = s.files from congrArg View.files h3]
      split_ifs with ha
      · subst ha
        simpa [FinMap.contains_iff] using hf
      · rfl

/-- All that a pass changes of the store is that files go. -/
theorem collect_base (hs : m.base.store.attached = true) (hcalm : m.base.store.view.Calm)
    (pass : Pass) : ∃ s : Store, (m.collect pass).base = { m.base with store := s } ∧
      s.attached = true ∧ s.view.Calm ∧ s.index = m.base.store.index ∧
      ∀ (hex : String) file, s.files[hex]? = some file → m.base.store.files[hex]? = some file := by
  have hsame : ∀ {m' : GcMachine}, m'.base = m.base → ∃ s : Store,
      m'.base = { m.base with store := s } ∧ s.attached = true ∧ s.view.Calm ∧
      s.index = m.base.store.index ∧
      ∀ (hex : String) file, s.files[hex]? = some file → m.base.store.files[hex]? = some file :=
    fun hbase => ⟨m.base.store, hbase, hs, hcalm, rfl, fun _ _ hf => hf⟩
  cases pass with
  | removing view hex files report =>
    obtain ⟨r, s, hrun, hs', hcalm', hidx, hfiles⟩ := removeFile_eq Crates.reference hs hcalm hex
    refine ⟨s, ?_, hs', hcalm', hidx, fun a file hf => ?_⟩
    · simp only [GcMachine.collect, hrun]
      cases r <;> rfl
    · rw [hfiles] at hf
      split_ifs at hf
      exact hf
  | visiting view files report =>
    cases files with
    | nil => exact hsame rfl
    | cons hex files =>
      simp only [GcMachine.collect]
      split_ifs
      · exact hsame rfl
      · exact hsame rfl
      · exact hsame rfl
  | probing hexes report =>
    cases hexes with
    | nil => exact hsame rfl
    | cons hex hexes =>
      simp only [GcMachine.collect]
      split
      · exact hsame rfl
      · exact hsame rfl
      · split_ifs
        · exact hsame rfl
        · exact hsame rfl
  | _ => exact hsame rfl

theorem Balanced.withFiles {m : Machine} (h : m.Balanced) {s : Store} (hs : s.attached = true)
    (hcalm : s.view.Calm) (hidx : s.index = m.store.index) :
    ({ m with store := s } : Machine).Balanced where
  attached := hs
  calm := hcalm
  keyed := hidx ▸ h.keyed
  counted := hidx ▸ h.counted
  locked := h.locked
  knows := hidx ▸ h.knows
  exact := hidx ▸ h.exact

theorem needed_withFiles {s : Store} (hidx : s.index = m.base.store.index) {pass : Option Pass} :
    (⟨{ m.base with store := s }, pass⟩ : GcMachine).Needed X hex ↔ m.Needed X hex := by
  unfold Needed
  rw [hidx]

/-- Files that are at most removed. -/
theorem KeepsNeeded.withFiles {view : GcView} (h : m.KeepsNeeded X view hex) {s : Store}
    (hidx : s.index = m.base.store.index) {pass : Option Pass}
    (hfiles : ∀ file, s.files[hex]? = some file → m.base.store.files[hex]? = some file) :
    KeepsNeeded X ⟨{ m.base with store := s }, pass⟩ view hex := fun file hf hn =>
  h file (hfiles file hf) ((needed_withFiles hidx).1 hn)

/-- The pass goes on without a change. -/
theorem Guarded.pass_to (h : m.Guarded X) {pass : Option Pass}
    (hp : ∀ p ∈ pass, m.GuardedBy X p) : Guarded X { m with pass := pass } := ⟨h.balanced, hp⟩

theorem Guarded.collect (h : m.Guarded X) (ht : m.Timely X .collect) {pass : Pass}
    (hp : m.pass = some pass) : (m.collect pass).Guarded X := by
  have hpass := h.pass pass hp
  cases pass with
  | clocking grace indexed =>
    refine h.pass_to fun p hp' => ?_
    cases hp'
    intro hex file hf hn
    exact ht _ hp (hex, file) (ExtTreeMap.mem_toList_iff_getElem?_eq_some.2 hf) hn
  | listing view =>
    refine h.pass_to fun p hp' => ?_
    cases hp'
    exact fun hex _ => hpass hex
  | visiting view files report =>
    cases files with
    | nil =>
      refine h.pass_to fun p hp' => ?_
      cases hp'
      trivial
    | cons hex files =>
      have hrest : ∀ hex' ∈ files, m.KeepsNeeded X view hex' := fun hex' hmem =>
        hpass hex' (List.mem_cons_of_mem _ hmem)
      simp only [GcMachine.collect]
      split_ifs with hin hrecent
      · refine h.pass_to fun p hp' => ?_
        cases hp'
        exact hrest
      · refine h.pass_to fun p hp' => ?_
        cases hp'
        exact hrest
      · refine h.pass_to fun p hp' => ?_
        cases hp'
        refine ⟨?_, hrest⟩
        -- the file is old, so it is not needed
        cases hf : m.base.store.files[hex]? with
        | none => exact .inl rfl
        | some file =>
          rw [hf, Option.any_some] at hrecent
          refine .inr fun hn => ?_
          rcases hpass hex List.mem_cons_self file hf hn with hin' | hrecent'
          · exact hin hin'
          · exact hrecent hrecent'
  | removing view hex files report =>
    obtain ⟨r, s, hrun, hs, hcalm, hidx, hfiles⟩ :=
      removeFile_eq X h.balanced.attached h.balanced.calm hex
    have hkept : ∀ report, Guarded X ⟨{ m.base with store := s },
        some (.visiting view files report)⟩ := fun report => by
      refine ⟨Balanced.withFiles h.balanced hs hcalm hidx, fun p hp' => ?_⟩
      cases hp'
      intro hex' hmem
      refine (hpass.2 hex' hmem).withFiles hidx fun file hf => ?_
      rw [hfiles] at hf
      split_ifs at hf
      exact hf
    simp only [GcMachine.collect, hrun]
    cases r with
    | ok u => exact hkept _
    | error e => exact hkept _
  | probing hexes report =>
    have hnext : ∀ {m' : GcMachine}, (∃ pass, (∀ p ∈ pass, ∃ a b, p = .probing a b) ∧
        m' = { m with pass := pass }) → m'.Guarded X := by
      rintro m' ⟨pass, hpass, rfl⟩
      refine h.pass_to fun p hp' => ?_
      obtain ⟨a, b, rfl⟩ := hpass p hp'
      trivial
    cases hexes with
    | nil => exact hnext ⟨none, nofun, rfl⟩
    | cons hex hexes =>
      simp only [GcMachine.collect]
      split
      · exact hnext ⟨none, nofun, rfl⟩
      · exact hnext ⟨_, fun p hp' => ⟨_, _, (Option.some.inj hp').symm⟩, rfl⟩
      · split_ifs
        · exact hnext ⟨_, fun p hp' => ⟨_, _, (Option.some.inj hp').symm⟩, rfl⟩
        · exact hnext ⟨_, fun p hp' => ⟨_, _, (Option.some.inj hp').symm⟩, rfl⟩

theorem Guarded.step (h : m.Guarded X) (action : GcAction) (ht : m.Timely X action) :
    (m.step X action).Guarded X := by
  cases action with
  | call action =>
    have he := Machine.step_effect (X := X) h.balanced.attached h.balanced.calm action
    exact ⟨h.balanced.step action, fun pass hp => (h.pass pass hp).call he (ht pass hp)⟩
  | gc grace =>
    unfold GcMachine.step
    split_ifs
    · exact h
    · refine h.pass_to fun p hp => ?_
      cases hp
      trivial
  | collect =>
    unfold GcMachine.step
    cases hp : m.pass with
    | none => exact h
    | some pass => exact h.collect ht hp

/-- A guarded pass spares what is needed. -/
theorem Guarded.spares (h : m.Guarded X) (action : GcAction) : m.Spares X action := by
  intro hex hmem
  unfold removed? at hmem
  split at hmem
  · split at hmem
    · rename_i view hex' files report hp
      split_ifs at hmem with hf
      · cases hmem
        rcases (h.pass _ hp).1 with hnone | hneed
        · rw [FinMap.contains_iff, hnone] at hf
          cases hf
        · exact hneed
      · cases hmem
    · cases hmem
  · cases hmem

/-! ## Runs -/

/-- The calls do not race each other for a file. -/
def Unraced (X : Crates) (m : GcMachine) : GcAction → Prop
  | .call action => m.base.Unraced X action
  | _ => True

/-- A step that removes no file that is needed keeps what is needed. -/
theorem filed_collect (h : m.Guarded X) (hf : m.base.Filed X) :
    (m.step X .collect).base.Filed X := by
  unfold GcMachine.step
  cases hp : m.pass with
  | none => exact hf
  | some pass =>
    cases pass with
    | removing view hex files report =>
      obtain ⟨r, s, hrun, -, -, hidx, hfiles⟩ :=
        removeFile_eq X h.balanced.attached h.balanced.calm hex
      have hkeep : ∀ {a : String}, m.Needed X a → (m.base.store.files[a]?).isSome →
          (s.files[a]?).isSome := by
        intro a hn ha
        rw [hfiles]
        split_ifs with hx
        · subst hx
          rcases (h.pass _ hp).1 with hnone | hneed
          · rw [hnone] at ha
            cases ha
          · exact absurd hn hneed
        · exact ha
      have hfiled : ({ m.base with store := s } : Machine).Filed X := by
        constructor
        · intro a loc hloc
          have hloc : m.base.store.index.chunkLocations[a]? = some loc := hidx ▸ hloc
          exact hkeep (needed_iff.2 (.inl (by rw [hloc]; rfl))) (hf.indexed a loc hloc)
        · exact fun id hin => hkeep (needed_iff.2 (.inr ⟨id, rfl, hin⟩)) (hf.held id hin)
      simp only [Option.elim_some, GcMachine.collect, hrun]
      cases r with
      | ok u => exact hfiled
      | error e => exact hfiled
    | visiting view files report =>
      cases files with
      | nil => exact hf
      | cons hex files =>
        simp only [Option.elim_some, GcMachine.collect]
        split_ifs <;> exact hf
    | probing hexes report =>
      cases hexes with
      | nil => exact hf
      | cons hex hexes =>
        simp only [Option.elim_some, GcMachine.collect]
        split
        · exact hf
        · exact hf
        · split_ifs <;> exact hf
    | _ => exact hf

theorem filed_step (h : m.Guarded X) (hf : m.base.Filed X) (action : GcAction)
    (hu : m.Unraced X action) : (m.step X action).base.Filed X := by
  cases action with
  | call action =>
    exact hf.step (Machine.step_effect h.balanced.attached h.balanced.calm action) hu
  | gc grace =>
    unfold GcMachine.step
    split_ifs <;> exact hf
  | collect => exact filed_collect h hf

theorem Guarded.run : ∀ (actions : List GcAction) {m : GcMachine}, m.Guarded X →
    Throughout X (Timely X) m actions → Throughout X (Spares X) m actions
  | [], _, _, _ => trivial
  | action :: actions, _, h, ht =>
    ⟨h.spares action, Guarded.run actions (h.step action ht.1) ht.2⟩

theorem Guarded.complete : ∀ (actions : List GcAction) {m : GcMachine}, m.Guarded X →
    m.base.Filed X → Throughout X (fun m action => m.Timely X action ∧ m.Unraced X action) m actions →
    (m.run X actions).base.Complete (m.run X actions).base.Deleting
  | [], _, h, hf, _ => hf.complete h.balanced
  | action :: actions, _, h, hf, ht =>
    Guarded.complete actions (h.step action ht.1.1) (filed_step h hf action ht.1.2) ht.2

/-! ## Actions that are not timely -/

/-- The file is there and needed, and the pass will not keep it. -/
structure Doomed (X : Crates) (m : GcMachine) (view : GcView) (hex : String) : Prop where
  attached : m.base.store.attached = true
  calm : m.base.store.view.Calm
  needed : m.Needed X hex
  file : ∃ file, m.base.store.files[hex]? = some file ∧ ¬ view.Keeps hex file.mtime

/-- Going on alone, the pass removes a file that is needed. -/
def Spoils (X : Crates) (m : GcMachine) : Prop :=
  ∃ n, ¬ Throughout X (Spares X) m (List.replicate n .collect)

theorem Spoils.step (h : Spoils X (m.step X .collect)) : Spoils X m := by
  obtain ⟨n, hn⟩ := h
  exact ⟨n + 1, fun ht => hn ht.2⟩

variable {view : GcView}

theorem Doomed.pass_to (h : m.Doomed X view hex) (pass : Option Pass) :
    Doomed X { m with pass := pass } view hex := ⟨h.attached, h.calm, h.needed, h.file⟩

theorem spoils_removing {file : ChunkFile} {files : List String} {report : GcReport}
    (hn : m.Needed X hex) (hf : m.base.store.files[hex]? = some file)
    (hp : m.pass = some (.removing view hex files report)) : Spoils X m := by
  refine ⟨1, fun ht => ht.1 hex ?_ hn⟩
  have hc : m.base.store.files.contains hex = true := by rw [FinMap.contains_iff, hf]; rfl
  unfold removed?
  simp [hp, hc]

/-- The pass removes another file first. -/
theorem Doomed.removes_other (h : m.Doomed X view hex) {hex' : String} {files : List String}
    {report : GcReport} (hp : m.pass = some (.removing view hex' files report)) (hne : hex ≠ hex') :
    (m.step X .collect).Doomed X view hex ∧
      ∃ report', (m.step X .collect).pass = some (.visiting view files report') := by
  obtain ⟨r, s, hrun, hs, hcalm, hidx, hfiles⟩ := removeFile_eq X h.attached h.calm hex'
  have hdoomed : ∀ pass, Doomed X ⟨{ m.base with store := s }, pass⟩ view hex := fun pass => by
    obtain ⟨file, hf, hkeep⟩ := h.file
    refine ⟨hs, hcalm, (needed_withFiles hidx).2 h.needed, file, ?_, hkeep⟩
    show s.files[hex]? = some file
    rw [hfiles, if_neg (Ne.symm hne), hf]
  unfold GcMachine.step
  rw [hp]
  simp only [Option.elim_some, GcMachine.collect, hrun]
  cases r with
  | ok u => exact ⟨hdoomed _, _, rfl⟩
  | error e => exact ⟨hdoomed _, _, rfl⟩

theorem Doomed.visiting : ∀ (files : List String) {m : GcMachine} {report : GcReport},
    m.Doomed X view hex → m.pass = some (.visiting view files report) → hex ∈ files → Spoils X m
  | [], _, _, _, _, hmem => by cases hmem
  | hex' :: files, m, report, h, hp, hmem => by
    refine Spoils.step ?_
    have hstep : m.step X .collect = m.collect (.visiting view (hex' :: files) report) := by
      unfold GcMachine.step
      rw [hp]
      rfl
    by_cases he : hex = hex'
    · subst he
      obtain ⟨file, hf, hkeep⟩ := h.file
      obtain ⟨hnot, hold⟩ := not_or.1 hkeep
      rw [hstep]
      simp only [GcMachine.collect]
      rw [if_neg hnot, hf, Option.any_some, if_neg hold]
      exact spoils_removing (h.pass_to _).needed hf rfl
    · have hrest : hex ∈ files := (List.mem_cons.1 hmem).resolve_left he
      rw [hstep]
      simp only [GcMachine.collect]
      split_ifs
      · exact Doomed.visiting files (h.pass_to _) rfl hrest
      · exact Doomed.visiting files (h.pass_to _) rfl hrest
      · -- the other file goes first
        obtain ⟨hd, report', hp'⟩ := (h.pass_to (some (.removing view hex' files report))).removes_other
          rfl he
        exact (hd.visiting files hp' hrest).step

theorem Doomed.listing (h : m.Doomed X view hex) (hp : m.pass = some (.listing view))
    (hname : hex.utf8ByteSize = 64) : Spoils X m := by
  refine Spoils.step ?_
  obtain ⟨file, hf, -⟩ := h.file
  have hmem : hex ∈ (m.base.store.files.toList.filter fun p => p.1.utf8ByteSize = 64).map Prod.fst := by
    refine List.mem_map.2 ⟨(hex, file), List.mem_filter.2 ⟨?_, by simp [hname]⟩, rfl⟩
    exact ExtTreeMap.mem_toList_iff_getElem?_eq_some.2 hf
  unfold GcMachine.step
  rw [hp]
  exact Doomed.visiting _ (m := ⟨m.base, some (.visiting view _ {})⟩) (h.pass_to _) rfl hmem

/-- What holds in every run. -/
structure Sane (m : GcMachine) : Prop where
  balanced : m.base.Balanced
  named : ∀ (hex : String) file, m.base.store.files[hex]? = some file → hex.utf8ByteSize = 64

theorem Sane.collect (h : m.Sane) : (m.step X .collect).Sane := by
  unfold GcMachine.step
  cases m.pass with
  | none => exact h
  | some pass =>
    obtain ⟨s, hbase, hs, hcalm, hidx, hfiles⟩ :=
      collect_base h.balanced.attached h.balanced.calm pass
    refine ⟨?_, fun hex file hf => ?_⟩
    · simp only [Option.elim_some, hbase]
      exact Balanced.withFiles h.balanced hs hcalm hidx
    · simp only [Option.elim_some, hbase] at hf
      exact h.named hex file (hfiles hex file hf)

theorem Sane.step (h : m.Sane) (action : GcAction) : (m.step X action).Sane := by
  cases action with
  | call action =>
    refine ⟨h.balanced.step action, fun hex file hf => ?_⟩
    have he := Machine.step_effect (X := X) h.balanced.attached h.balanced.calm action
    have hf : (m.base.step X action).store.files[hex]? = some file := hf
    rw [he.files] at hf
    cases hd : m.base.deed X action with
    | created id data =>
      rw [hd] at hf
      simp only [Deed.files, FinMap.get_insert] at hf
      split_ifs at hf with hx
      · exact hx ▸ id.utf8ByteSize_toHex
      · exact h.named hex file hf
    | unlinked id =>
      rw [hd] at hf
      simp only [Deed.files, FinMap.get_erase] at hf
      split_ifs at hf
      exact h.named hex file hf
    | _ =>
      rw [hd] at hf
      exact h.named hex file hf
  | gc grace =>
    unfold GcMachine.step
    split_ifs
    · exact h
    · exact ⟨h.balanced, h.named⟩
  | collect => exact h.collect

theorem Sane.run : ∀ (actions : List GcAction) {m : GcMachine}, m.Sane → (m.run X actions).Sane
  | [], _, h => h
  | action :: actions, _, h => Sane.run actions (h.step action)

theorem Sane.start (engine : StorageEngine) (dataDir : String) :
    (GcMachine.start engine dataDir).Sane :=
  ⟨.start engine dataDir, fun hex file hf => by
    simp [GcMachine.start, Machine.start, Store.emptyDir] at hf⟩

/-- A flush holds the file it has come to rely on. -/
theorem relied_after (h : m.Sane)
    (hr : (m.base.deed X action).relied? m.base.store = some (hex, mtime)) :
    (m.step X (.call action)).Needed X hex ∧
      ∃ file, (m.base.step X action).store.files[hex]? = some file ∧ file.mtime = mtime := by
  have hm := h.balanced.attached
  have hcalm := h.balanced.calm
  have he := Machine.step_effect (X := X) hm hcalm action
  have hheld : ∀ {m' : Machine} {a : Nat} {session : StoreSession} {chunk : Bytes} {next : Next},
      (ChunkId.fromData X chunk).toHex = hex →
      (⟨m'.become a (.referencing session chunk next), m.pass⟩ : GcMachine).Needed X hex :=
    fun hhex => needed_iff.2 (.inr ⟨_, hhex, Machine.inFlight_iff.2
      ⟨_, _, Machine.become_get _ _ _, rfl⟩⟩)
  cases action with
  | advance a =>
    cases ha : m.base.agents[a]? with
    | none => simp [Machine.deed, ha, Deed.relied?] at hr
    | some agent =>
      have hstep : m.base.step X (.advance a) = m.base.advance X a agent := by
        rw [Machine.step, ha]
      have hdeed : m.base.deed X (.advance a) = agent.deed X m.base.store := by
        rw [Machine.deed, ha]
        rfl
      show (⟨m.base.step X (.advance a), m.pass⟩ : GcMachine).Needed X hex ∧ _
      cases agent with
      | checking session chunk next =>
        rw [hdeed, Agent.deed] at hr
        split_ifs at hr with hf
        · obtain ⟨file, hfile, heq⟩ := Option.map_eq_some_iff.1 hr
          obtain ⟨rfl, rfl⟩ := Prod.mk.inj heq
          refine ⟨?_, file, ?_, rfl⟩
          · rw [hstep, Machine.advance]
            refine Machine.exec_of_does (P := fun m' => (⟨m', m.pass⟩ : GcMachine).Needed X _) hm
              (does_chunkExists (X := X)) fun s _ _ => ?_
            rw [show m.base.store.view.files = m.base.store.files from rfl, if_pos hf]
            exact hheld rfl
          · rw [he.files, hdeed, Agent.deed, if_pos hf]
            exact hfile
        · cases hr
      | creating session chunk next =>
        rw [hdeed] at hr
        obtain ⟨rfl, rfl⟩ := Prod.mk.inj (Option.some.inj hr)
        refine ⟨?_, ⟨encodeChunk X chunk, m.base.store.clock⟩, ?_, rfl⟩
        · rw [hstep, Machine.advance]
          exact Machine.exec_of_does (P := fun m' => (⟨m', m.pass⟩ : GcMachine).Needed X _) hm
            (does_createChunk hcalm.write) fun s _ _ => hheld rfl
        · rw [he.files, hdeed]
          simp [Agent.deed, Deed.files]
      | releasing why chunks =>
        rw [hdeed] at hr
        cases chunks <;> cases hr
      | _ => rw [hdeed] at hr; cases hr
  | _ => cases hr

theorem Sane.doomed (h : m.Sane) {view : GcView} {file : ChunkFile} (hn : m.Needed X hex)
    (hf : m.base.store.files[hex]? = some file) (hkeep : ¬ view.Keeps hex file.mtime) :
    m.Doomed X view hex := ⟨h.balanced.attached, h.balanced.calm, hn, file, hf, hkeep⟩

/-- **After an action that is not timely the pass, going on alone, removes a file that is needed.** -/
theorem Sane.spoils (h : m.Sane) {action : GcAction} (ht : ¬ m.Timely X action) :
    Spoils X (m.step X action) := by
  have hsane := h.step (X := X) action
  cases action with
  | call action =>
    unfold Timely at ht
    push Not at ht
    obtain ⟨pass, hp, ⟨hex, mtime⟩, hr, hnot⟩ := ht
    obtain ⟨hn, file, hf, rfl⟩ := relied_after h hr
    have hp' : (m.step X (.call action)).pass = some pass := hp
    have hdoomed : ∀ {view : GcView}, ¬ view.Keeps hex file.mtime →
        (m.step X (.call action)).Doomed X view hex := fun hkeep => hsane.doomed hn hf hkeep
    cases pass with
    | listing view => exact (hdoomed hnot).listing hp' (hsane.named hex file hf)
    | visiting view files report =>
      obtain ⟨hmem, hkeep⟩ := Classical.not_imp.1 hnot
      exact (hdoomed hkeep).visiting files hp' hmem
    | removing view hex' files report =>
      by_cases he : hex = hex'
      · subst he
        exact spoils_removing hn hf hp'
      · obtain ⟨hmem, hkeep⟩ : hex ∈ files ∧ ¬ view.Keeps hex file.mtime := by
          simpa [Pass.Allows, he] using hnot
        obtain ⟨hd, report', hp2⟩ := (hdoomed hkeep).removes_other hp' he
        exact (hd.visiting files hp2 hmem).step
    | _ => exact absurd trivial hnot
  | gc grace => exact absurd trivial ht
  | collect =>
    unfold Timely at ht
    push Not at ht
    obtain ⟨pass, hp, hnot⟩ := ht
    cases pass with
    | clocking grace indexed =>
      unfold ReadsInTime at hnot
      push Not at hnot
      obtain ⟨⟨hex, file⟩, hmem, hn, hkeep⟩ := hnot
      have hf := ExtTreeMap.mem_toList_iff_getElem?_eq_some.1 hmem
      have hd : m.Doomed X ⟨grace, indexed, m.base.store.clock⟩ hex := h.doomed hn hf hkeep
      unfold GcMachine.step
      rw [show m.pass = _ from hp]
      exact (hd.pass_to _).listing rfl (h.named hex file hf)
    | _ => exact absurd trivial hnot

theorem Guarded.start (engine : StorageEngine) (dataDir : String) :
    (GcMachine.start engine dataDir).Guarded X := ⟨.start engine dataDir, nofun⟩

end GcMachine

instance (view : GcView) (hex : String) (mtime : Int) : Decidable (view.Keeps hex mtime) :=
  inferInstanceAs (Decidable (_ ∨ _))

instance (hex : String) (mtime : Int) : (pass : Pass) → Decidable (pass.Allows hex mtime)
  | .clocking _ _ | .probing _ _ => .isTrue trivial
  | .listing view => inferInstanceAs (Decidable (view.Keeps hex mtime))
  | .visiting view files _ => inferInstanceAs (Decidable (hex ∈ files → view.Keeps hex mtime))
  | .removing view hex' files _ =>
    inferInstanceAs (Decidable (hex ≠ hex' ∧ (hex ∈ files → view.Keeps hex mtime)))

namespace GcMachine

instance (X : Crates) (m : GcMachine) (hex : String) : Decidable (m.Needed X hex) :=
  inferInstanceAs (Decidable (_ ∨ ∃ p ∈ m.base.agents.toList, ∃ id ∈ p.2.holding? X, id.toHex = hex))

instance (X : Crates) (m : GcMachine) (action : GcAction) : Decidable (m.Spares X action) :=
  inferInstanceAs (Decidable (∀ hex ∈ m.removed? action, _))

instance (X : Crates) (m : GcMachine) : (pass : Pass) → Decidable (m.ReadsInTime X pass)
  | .clocking grace indexed => inferInstanceAs (Decidable (∀ p ∈ m.base.store.files.toList,
      m.Needed X p.1 → GcView.Keeps ⟨grace, indexed, m.base.store.clock⟩ p.1 p.2.mtime))
  | .listing _ | .visiting _ _ _ | .removing _ _ _ _ | .probing _ _ => .isTrue trivial

instance (X : Crates) (m : GcMachine) : (action : GcAction) → Decidable (m.Timely X action)
  | .call action => inferInstanceAs (Decidable (∀ pass ∈ m.pass,
      ∀ p ∈ (m.base.deed X action).relied? m.base.store, pass.Allows p.1 p.2))
  | .gc _ => .isTrue trivial
  | .collect => inferInstanceAs (Decidable (∀ pass ∈ m.pass, m.ReadsInTime X pass))

instance (X : Crates) (m : GcMachine) : (action : GcAction) → Decidable (m.Unraced X action)
  | .call action => inferInstanceAs (Decidable (m.base.Unraced X action))
  | .gc _ | .collect => .isTrue trivial

instance Throughout.decidable (X : Crates) {P : GcMachine → GcAction → Prop}
    [∀ m action, Decidable (P m action)] :
    ∀ (m : GcMachine) (actions : List GcAction), Decidable (Throughout X P m actions)
  | _, [] => .isTrue trivial
  | m, action :: actions =>
    haveI := Throughout.decidable X (P := P) (m.step X action) actions
    inferInstanceAs (Decidable (_ ∧ _))

end GcMachine

/-- **A pass beside other calls removes nothing that is needed**, in every run whose actions are
timely; if the calls do not race each other either, every chunk of an object that is not being
deleted has its file. After an action that is not timely it does remove such a file once it goes on
alone. -/
theorem gc_spares_needed (X : Crates) (engine : StorageEngine) (dataDir : String)
    (actions : List GcAction) :
    let start := GcMachine.start engine dataDir
    (GcMachine.Throughout X (GcMachine.Timely X) start actions →
      GcMachine.Throughout X (GcMachine.Spares X) start actions) ∧
    (GcMachine.Throughout X (fun m action => m.Timely X action ∧ m.Unraced X action) start actions →
      (start.run X actions).base.Complete (start.run X actions).base.Deleting) ∧
    ∀ action, ¬ (start.run X actions).Timely X action →
      GcMachine.Spoils X ((start.run X actions).step X action) :=
  ⟨GcMachine.Guarded.run actions (.start engine dataDir),
    GcMachine.Guarded.complete actions (.start engine dataDir) (.start engine dataDir),
    fun _ ht => (GcMachine.Sane.run actions (.start engine dataDir)).spoils ht⟩

/-- Actions of the calls, in a row. -/
def calls (actions : List Action) : List GcAction := actions.map .call

/-- A pass begins while a flush holds its file, and looks at the file after the call has returned. -/
def timelyRun : List GcAction :=
  calls ([.begin 0 "a" "" [], .tick 5, .write 0 [1]] ++ advances 0 3) ++ [.gc 10, .collect]
    ++ calls ([.tick 20] ++ advances 0 2 ++ [.finish 0] ++ advances 0 5)
    ++ List.replicate 6 .collect

/-- A pass has read the clock; a moment later an upload puts its chunk file in place, and the pass
finds it before the upload goes on. -/
def lateFileRun : List GcAction :=
  [.gc 10, .collect] ++ calls ([.tick 1, .begin 0 "a" "" [], .write 0 [1]] ++ advances 0 3)
    ++ List.replicate 3 .collect ++ calls (advances 0 2 ++ [.finish 0] ++ advances 0 5)
    ++ List.replicate 2 .collect

theorem gc_spares_needed_timely :
    let start := GcMachine.start ⟨1, 0, false⟩ "data"
    GcMachine.Throughout .reference (GcMachine.Spares .reference) start timelyRun ∧
    (start.run .reference timelyRun).base.Complete (start.run .reference timelyRun).base.Deleting ∧
    GcMachine.Spoils .reference ((start.run .reference (lateFileRun.take 7)).step .reference
      (.call (.advance 0))) := by
  intro start
  have h := gc_spares_needed .reference ⟨1, 0, false⟩ "data"
  exact ⟨(h timelyRun).1 (by decide +kernel), (h timelyRun).2.1 (by decide +kernel),
    (h (lateFileRun.take 7)).2.2 (.call (.advance 0)) (by decide +kernel)⟩

/-- No time near the grace period passes; the pass removes the file of a flush in progress, and when
all calls have returned an object is visible without it. -/
theorem gc_removes_late_file :
    let start := GcMachine.start ⟨1, 0, false⟩ "data"
    let m := start.run .reference lateFileRun
    (∀ now, .call (.tick now) ∈ lateFileRun → 0 ≤ now ∧ now < 10) ∧
    ¬ GcMachine.Throughout .reference (GcMachine.Spares .reference) start lateFileRun ∧
    m.base.agents.toList = [] ∧ m.pass = none ∧ ¬ m.base.Complete fun _ => False := by
  intro start m
  refine ⟨by simp [lateFileRun, calls, advances], by decide +kernel, by decide +kernel, by decide +kernel,
    fun h => ?_⟩
  have hlost : ∃ manifest ∈ m.base.store.index.manifests["a"]?, ∃ id ∈ manifest.chunks,
      ¬ (m.base.store.files[id.toHex]?).isSome := by decide +kernel
  obtain ⟨manifest, hm, id, hid, hnot⟩ := hlost
  exact hnot (h "a" manifest hm (fun h => h) id hid)

end KaidaDB
