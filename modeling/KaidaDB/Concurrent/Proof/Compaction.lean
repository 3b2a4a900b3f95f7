import KaidaDB.Crates.Reference
import KaidaDB.Concurrent.IndexMachine
import KaidaDB.Storage.Proof.Calls

/-!
# Compaction and concurrent updates

`InStep pending`: the log of the machine lacks nothing but is ahead of memory by `pending`, the entries
of the callers about to apply theirs, all for different slots; while a compaction is between its
snapshot and its swap there are none. Undisturbed actions keep it (`InStep.step`), so once all calls
have returned the log rebuilds memory (`compaction_keeps_updates`). An entry appended after the
snapshot is lost with the file that is replaced (`compaction_loses_update`).
-/

namespace KaidaDB

open Std Effects

variable {X : Crates}

namespace IndexMachine

structure InStep (X : Crates) (m : IndexMachine) (pending : List (Nat × EntryOp)) : Prop where
  calm : m.store.view.Calm
  keyed : m.store.index.Keyed
  lags : m.store.Lags X (pending.map fun p => p.2.entry)
  applying : ∀ (t : Nat) op, (t, op) ∈ pending ↔ m.callers[t]? = some (.applying op)
  slots : pending.Pairwise fun p q => p.1 ≠ q.1 ∧ p.2.entry.slot ≠ q.2.entry.slot
  /-- One caller compacts at a time. -/
  one : ∀ (t : Nat) c, m.callers[t]? = some c → (c = .snapshotting ∨ c.replaces = true) →
    m.compacting = some t
  replaces : ∀ (t : Nat) c, m.callers[t]? = some c → c.replaces = true → pending = []
  detached : m.store.attached = false → ∃ (t : Nat) (n : Nat), m.callers[t]? = some (.reopening n)
  tmp : ∀ (t n : Nat), m.callers[t]? = some (.replacing n) →
    m.tmp = logBytes X (Index.liveEntries m.store.index)

namespace InStep

variable {m : IndexMachine} {pending : List (Nat × EntryOp)} {t : Nat}

theorem start (dataDir : String) (durability : Durability) :
    InStep X (.start dataDir durability) [] where
  calm := rfl
  keyed k v hv := by simp [IndexMachine.start, Store.emptyDir, IndexState.empty] at hv
  lags := ⟨[], rfl, rfl⟩
  applying t op := by simp [IndexMachine.start]
  slots := .nil
  one t c h := by simp [IndexMachine.start] at h
  replaces t c h := by simp [IndexMachine.start] at h
  detached h := by cases h
  tmp t n h := by simp [IndexMachine.start] at h

/-- A caller that is not about to apply an entry does something that changes neither memory nor log. -/
theorem go (h : InStep X m pending) {old : Option Caller} (new : Option Caller)
    {m' : IndexMachine} (hold : m.callers[t]? = old) (hnew : m'.callers[t]? = new)
    (hothers : ∀ u : Nat, u ≠ t → m'.callers[u]? = m.callers[u]?) (hstore : m'.store = m.store)
    (htmp : m'.tmp = m.tmp) (hnot : ∀ op, old ≠ some (.applying op))
    (hplain : ∀ c, new = some c → c.applying? = none ∧ c.replaces = false)
    (hkeep : ∀ c, old = some c → c.replaces = false)
    (hone : ∀ (u : Nat) c, m'.callers[u]? = some c → (c = .snapshotting ∨ c.replaces = true) →
      m'.compacting = some u) : InStep X m' pending where
  calm := hstore ▸ h.calm
  keyed := hstore ▸ h.keyed
  lags := hstore ▸ h.lags
  applying u op := by
    by_cases hu : u = t
    · subst hu
      rw [h.applying, hold, hnew]
      refine iff_of_false (hnot op) fun hc => ?_
      have := (hplain _ hc).1
      cases this
    · rw [h.applying, hothers u hu]
  slots := h.slots
  one := hone
  replaces u c hu hc := by
    by_cases hut : u = t
    · subst hut
      rw [hnew] at hu
      rw [(hplain c hu).2] at hc
      cases hc
    · rw [hothers u hut] at hu
      exact h.replaces u c hu hc
  detached ha := by
    rw [hstore] at ha
    obtain ⟨u, n, hu⟩ := h.detached ha
    by_cases hut : u = t
    · subst hut
      have := hkeep _ (hold.symm.trans hu)
      cases this
    · exact ⟨u, n, by rw [hothers u hut, hu]⟩
  tmp u n hu := by
    by_cases hut : u = t
    · subst hut
      have := (hplain _ (hnew.symm.trans hu)).2
      cases this
    · rw [hothers u hut] at hu
      rw [htmp, hstore]
      exact h.tmp u n hu

/-- Only the caller that compacts is between snapshot and swap. -/
theorem replaces_unique (h : InStep X m pending) {c c' : Caller} {u : Nat}
    (ht : m.callers[t]? = some c) (hc : c = .snapshotting ∨ c.replaces = true)
    (hu : m.callers[u]? = some c') (hc' : c' = .snapshotting ∨ c'.replaces = true) : u = t := by
  have h1 := h.one t c ht hc
  rw [h.one u c' hu hc'] at h1
  exact Option.some.inj h1

/-- An entry is appended while nothing is in its way. -/
theorem append (h : InStep X m pending) {op : EntryOp} (ht : m.callers[t]? = some (.appending op))
    (hfree : ∀ (u : Nat) c, m.callers[u]? = some c →
      c.replaces = false ∧ ∀ other ∈ c.applying?, other.entry.slot ≠ op.entry.slot) :
    InStep X (m.advance X t (.appending op)) (pending ++ [(t, op)]) := by
  have hattached : m.store.attached = true := by
    by_contra ha
    obtain ⟨u, n, hu⟩ := h.detached (by simpa using ha)
    cases (hfree u _ hu).1
  simp only [advance, appendEntry_ok hattached (h.calm.appends _)]
  have hget : ∀ u : Nat, (m.callers.insert t (.applying op))[u]?
      = if t = u then some (.applying op) else m.callers[u]? := fun u => FinMap.get_insert _ _ u _
  have hother : ∀ (u : Nat) c, (m.callers.insert t (.applying op))[u]? = some c →
      c.replaces = false := by
    intro u c hu
    rw [hget] at hu
    split_ifs at hu
    · cases hu
      rfl
    · exact (hfree u c hu).1
  constructor
  · exact h.calm.tail.trans h.calm
  · exact h.keyed
  · rw [List.map_append]
    exact h.lags.append rfl rfl
  · intro u op'
    show _ ↔ (m.callers.insert t (.applying op))[u]? = _
    rw [List.mem_append, h.applying, hget]
    split_ifs with hu
    · subst hu
      simp [ht, eq_comm]
    · simp [Ne.symm hu]
  · refine List.pairwise_append.2 ⟨h.slots, List.pairwise_singleton _ _, ?_⟩
    rintro ⟨u, other⟩ hp q hq
    rw [List.mem_singleton.1 hq]
    have hu := (h.applying u other).1 hp
    refine ⟨?_, (hfree u _ hu).2 other rfl⟩
    rintro rfl
    rw [ht] at hu
    cases hu
  · intro u c hu hc
    have hu' : (m.callers.insert t (.applying op))[u]? = some c := hu
    rw [hget] at hu'
    split_ifs at hu'
    · cases hu'
      simp [Caller.replaces] at hc
    · exact h.one u c hu' hc
  · intro u c hu hc
    rw [hother u c hu] at hc
    cases hc
  · intro ha
    rw [show m.store.attached = false from ha] at hattached
    cases hattached
  · intro u n hu
    cases hother u _ hu

/-- A pending entry is applied. -/
theorem apply (h : InStep X m pending) {op : EntryOp} (ht : m.callers[t]? = some (.applying op)) :
    ∃ pending', InStep X (m.advance X t (.applying op)) pending' := by
  obtain ⟨xs, ys, rfl⟩ := List.append_of_mem ((h.applying t op).2 ht)
  obtain ⟨hxs, hys, hcross⟩ := List.pairwise_append.1 h.slots
  obtain ⟨htail, hys⟩ := List.pairwise_cons.1 hys
  -- nobody compacts while an entry is pending
  have hnone : ∀ (u : Nat) c, m.callers[u]? = some c → c.replaces = false := by
    intro u c hu
    by_contra hc
    have := h.replaces u c hu (by simpa using hc)
    simp at this
  have hattached : m.store.attached = true := by
    by_contra ha
    obtain ⟨u, n, hu⟩ := h.detached (by simpa using ha)
    cases hnone u _ hu
  -- what is left of the caller is not in the way of anything
  have hmain : ∀ {m' : IndexMachine} {new : Option Caller}, m'.callers[t]? = new →
      (new = none ∨ new = some .checking) →
      (∀ u : Nat, u ≠ t → m'.callers[u]? = m.callers[u]?) → m'.compacting = m.compacting →
      m'.store = { m.store with index := applyEntry m.store.index op.entry } →
      InStep X m' (xs ++ ys) := by
    intro m' new hnew hplain hothers hcomp hstore
    have hold : ∀ (u : Nat) c, m'.callers[u]? = some c → c = .checking ∨ m.callers[u]? = some c := by
      intro u c hu
      by_cases hut : u = t
      · subst hut
        rw [hnew] at hu
        rcases hplain with rfl | rfl
        · cases hu
        · cases hu
          exact .inl rfl
      · rw [hothers u hut] at hu
        exact .inr hu
    constructor
    · rw [hstore]
      exact h.calm
    · rw [hstore]
      exact applyEntry_keyed h.keyed _
    · rw [hstore, List.map_append]
      have hlags := h.lags
      rw [List.map_append, List.map_cons] at hlags
      refine hlags.apply (fun f hf => ?_) rfl rfl
      obtain ⟨p, hp, rfl⟩ := List.mem_map.1 hf
      exact (hcross p hp (t, op) List.mem_cons_self).2
    · intro u op'
      have happ := h.applying u op'
      by_cases hut : u = t
      · subst hut
        refine iff_of_false (fun hmem => ?_) fun hc => ?_
        · rcases List.mem_append.1 hmem with hmem | hmem
          · exact (hcross _ hmem (u, op) List.mem_cons_self).1 rfl
          · exact (htail _ hmem).1 rfl
        · rw [hnew] at hc
          rcases hplain with rfl | rfl <;> cases hc
      · rw [hothers u hut, ← happ]
        simp [hut]
    · exact List.pairwise_append.2
        ⟨hxs, hys, fun p hp q hq => hcross p hp q (List.mem_cons_of_mem _ hq)⟩
    · intro u c hu hc
      rcases hold u c hu with rfl | hu
      · simp [Caller.replaces] at hc
      · rw [hcomp]
        exact h.one u c hu hc
    · intro u c hu hc
      rcases hold u c hu with rfl | hu
      · cases hc
      · rw [hnone u c hu] at hc
        cases hc
    · intro ha
      rw [hstore, show m.store.attached = true from hattached] at ha
      cases ha
    · intro u n hu
      rcases hold u _ hu with hc | hu
      · cases hc
      · cases hnone u _ hu
  simp only [advance]
  refine ⟨xs ++ ys, ?_⟩
  split_ifs
  · exact hmain (by simp [become]) (.inr rfl) (fun u hu => by simp [become, Ne.symm hu]) rfl rfl
  · exact hmain (by simp [leave]) (.inl rfl) (fun u hu => by simp [leave, Ne.symm hu]) rfl rfl

/-- The steps of a compaction from its snapshot on: the caller keeps compacting and nobody else
does. -/
theorem compacts (h : InStep X m []) {old new : Caller} {m' : IndexMachine}
    (ht : m.callers[t]? = some old) (hold : old = .snapshotting ∨ old.replaces = true)
    (hcallers : m'.callers = m.callers.insert t new) (hcomp : m'.compacting = m.compacting)
    (hcalm : m'.store.view.Calm) (hidx : m'.store.index = m.store.index)
    (hnew : new.replaces = true) (hlags : m'.store.Lags X [])
    (hdetached : m'.store.attached = false → ∃ n, new = .reopening n)
    (htmp : ∀ n, new = .replacing n → m'.tmp = logBytes X (Index.liveEntries m.store.index)) :
    InStep X m' [] := by
  have hget : ∀ u : Nat, m'.callers[u]? = if t = u then some new else m.callers[u]? := by
    intro u
    rw [hcallers]
    exact FinMap.get_insert _ _ u _
  constructor
  · exact hcalm
  · rw [hidx]
    exact h.keyed
  · exact hlags
  · intro u op
    rw [hget]
    refine iff_of_false List.not_mem_nil fun hc => ?_
    split_ifs at hc
    · cases hc
      cases hnew
    · cases (h.applying u op).2 hc
  · exact .nil
  · intro u c hu hc
    rw [hcomp]
    rw [hget] at hu
    split_ifs at hu with hut
    · subst hut
      exact h.one t old ht hold
    · exact h.one u c hu hc
  · exact fun _ _ _ _ => rfl
  · intro ha
    obtain ⟨n, rfl⟩ := hdetached ha
    exact ⟨t, n, by rw [hget, if_pos rfl]⟩
  · intro u n hu
    rw [hidx]
    rw [hget] at hu
    split_ifs at hu with hut
    · exact htmp n (Option.some.inj hu)
    · exact absurd (h.replaces_unique ht hold hu (.inr rfl)).symm hut

theorem reopen (h : InStep X m pending) {n : Nat} (ht : m.callers[t]? = some (.reopening n)) :
    InStep X (m.advance X t (.reopening n)) pending := by
  have hget : ∀ u : Nat, (m.callers.erase t)[u]? = if t = u then none else m.callers[u]? :=
    fun u => FinMap.get_erase _ _ u
  -- nobody else compacts
  have hnone : ∀ (u : Nat) c, (m.callers.erase t)[u]? = some c →
      ¬ (c = .snapshotting ∨ c.replaces = true) := by
    intro u c hu hc
    rw [hget] at hu
    split_ifs at hu with hut
    exact hut (h.replaces_unique ht (.inr rfl) hu hc).symm
  constructor
  · exact h.calm
  · exact h.keyed
  · exact h.lags
  · intro u op
    show _ ↔ (m.callers.erase t)[u]? = _
    rw [h.applying, hget]
    split_ifs with hut
    · subst hut
      simp [ht]
    · rfl
  · exact h.slots
  · exact fun u c hu hc => absurd hc (hnone u c hu)
  · exact fun u c hu hc => absurd (.inr hc) (hnone u c hu)
  · intro ha
    cases ha
  · exact fun u n hu => absurd (.inr rfl) (hnone u _ hu)

/-- **Undisturbed actions keep log and memory in step.** -/
theorem step (h : InStep X m pending) (action : IndexAction) (hsafe : m.Undisturbed action) :
    ∃ pending', InStep X (m.step X action) pending' := by
  have hmem : ∀ {u : Nat} {c}, m.callers[u]? = some c → (u, c) ∈ m.callers.toList := fun hu =>
    ExtTreeMap.mem_toList_iff_getElem?_eq_some.2 hu
  have hbegin : ∀ {t : Nat} {old : Option Caller} {skip : IndexMachine}, m.callers[t]? = old →
      (∀ op, old ≠ some (.applying op)) → (∀ c, old = some c → c.replaces = false) →
      (m.compacting.isSome = true → ∃ pending', InStep X skip pending') →
      ∃ pending', InStep X (m.beginCompaction t skip) pending' := by
    intro t old skip hold hnot hkeep hskip
    unfold beginCompaction
    split_ifs with hcomp
    · exact hskip hcomp
    · have hnone : m.compacting = none := by simpa using hcomp
      refine ⟨pending, h.go (some .snapshotting) hold (by simp [become])
        (fun u hu => by simp [become, Ne.symm hu]) rfl rfl hnot (fun c hc => by cases hc; exact ⟨rfl, rfl⟩) hkeep fun u c hu hc => ?_⟩
      simp only [become, FinMap.get_insert] at hu
      split_ifs at hu with hut
      · rw [hut]
      · have := h.one u c hu hc
        rw [hnone] at this
        cases this
  have hleave : ∀ {t : Nat} {old : Option Caller}, m.callers[t]? = old →
      (∀ op, old ≠ some (.applying op)) → (∀ c, old = some c → c.replaces = false) →
      InStep X (m.leave t) pending := by
    intro t old hold hnot hkeep
    refine h.go none hold (by simp [leave]) (fun u hu => by simp [leave, Ne.symm hu]) rfl rfl hnot
      (fun c hc => by cases hc) hkeep fun u c hu hc => ?_
    simp only [leave, FinMap.get_erase] at hu
    split_ifs at hu
    exact h.one u c hu hc
  cases action with
  | call t op =>
    simp only [IndexMachine.step]
    split_ifs with ht
    · exact ⟨pending, h⟩
    · have hold : m.callers[t]? = none := by simpa using ht
      refine ⟨pending, h.go (some (.appending op)) hold (by simp [become])
        (fun u hu => by simp [become, Ne.symm hu]) rfl rfl (fun op => by simp)
        (fun c hc => by cases hc; exact ⟨rfl, rfl⟩) (fun c hc => by cases hc) fun u c hu hc => ?_⟩
      simp only [become, FinMap.get_insert] at hu
      split_ifs at hu
      · cases hu
        simp [Caller.replaces] at hc
      · exact h.one u c hu hc
  | compact t =>
    simp only [IndexMachine.step]
    split_ifs with ht
    · exact ⟨pending, h⟩
    · have hold : m.callers[t]? = none := by simpa using ht
      exact hbegin hold (fun op => by simp) (fun c hc => by cases hc) fun _ => ⟨pending, h⟩
  | advance t =>
    obtain ⟨hfree, hquiet⟩ := hsafe
    simp only [IndexMachine.step, next?] at hfree hquiet ⊢
    cases ht : m.callers[t]? with
    | none => exact ⟨pending, h⟩
    | some c =>
      rw [ht] at hfree hquiet
      simp only [Option.elim_some]
      cases c with
      | appending op =>
        exact ⟨_, h.append ht fun u c hu => hfree op rfl (u, c) (hmem hu)⟩
      | applying op => exact h.apply ht
      | checking =>
        simp only [advance]
        have hnot : ∀ op, some Caller.checking ≠ some (.applying op) := by simp
        have hkeep : ∀ c, some Caller.checking = some c → c.replaces = false := by
          rintro c ⟨⟩
          rfl
        split_ifs
        · exact ⟨pending, hleave ht hnot hkeep⟩
        · exact ⟨pending, hleave ht hnot hkeep⟩
        · exact hbegin ht hnot hkeep fun _ => ⟨pending, hleave ht hnot hkeep⟩
      | snapshotting =>
        -- no entry waits to be applied
        have hnil : pending = [] := by
          refine List.eq_nil_iff_forall_not_mem.2 fun p hp => ?_
          have := hquiet rfl _ (hmem ((h.applying p.1 p.2).1 hp))
          cases this
        subst hnil
        refine ⟨[], h.compacts ht (.inl rfl) rfl rfl h.calm rfl rfl h.lags (fun ha => ?_)
          fun n hn => rfl⟩
        obtain ⟨u, n, hu⟩ := h.detached ha
        cases h.replaces_unique ht (.inl rfl) hu (.inr rfl)
        rw [ht] at hu
        cases hu
      | replacing n =>
        cases h.replaces t _ ht rfl
        refine ⟨[], h.compacts ht (.inr rfl) rfl rfl h.calm rfl rfl ⟨_, h.tmp t n ht, ?_⟩
          (fun _ => ⟨n, rfl⟩) fun n hn => by cases hn⟩
        exact replayLog_liveEntries h.keyed
      | reopening n => exact ⟨pending, h.reopen ht⟩

theorem run (h : InStep X m pending) : ∀ {actions : List IndexAction},
    m.UndisturbedRun X actions → ∃ pending', InStep X (m.run X actions) pending' := by
  intro actions
  induction actions generalizing m pending with
  | nil => exact fun _ => ⟨pending, h⟩
  | cons action actions ih =>
    intro hall
    obtain ⟨pending', h'⟩ := h.step action hall.1
    exact ih h' hall.2

end InStep

end IndexMachine

/-- **Compaction keeps concurrent updates that do not disturb it.** When all calls of such a run have
returned, opening the log rebuilds what is in memory. -/
theorem compaction_keeps_updates (hX : X.Lawful) (dataDir : String) (durability : Durability)
    (actions : List IndexAction)
    (hrun : (IndexMachine.start dataDir durability).UndisturbedRun X actions)
    (hdone : ((IndexMachine.start dataDir durability).run X actions).callers.toList = []) :
    let m := (IndexMachine.start dataDir durability).run X actions
    ∃ entries, Index.openLog X m.store.log = .ok (m.store.index, entries, m.store.log) := by
  intro m
  obtain ⟨pending, h⟩ := (IndexMachine.InStep.start dataDir durability).run hrun
  have hnil : pending = [] := by
    refine List.eq_nil_iff_forall_not_mem.2 fun p hp => ?_
    have := ExtTreeMap.mem_toList_iff_getElem?_eq_some.2 ((h.applying p.1 p.2).1 hp)
    rw [hdone] at this
    cases this
  subst hnil
  obtain ⟨es, hlog, hes⟩ := h.lags
  refine ⟨es.length, ?_⟩
  show Index.openLog X m.store.log = _
  rw [show m.store.log = logBytes X es from hlog, openLog_logBytes hX, hes]
  rfl

/-- `n` steps of a caller. -/
def goesOn (t n : Nat) : List IndexAction := List.replicate n (.advance t)

def emptyManifest (key : String) : MediaManifest := ⟨key, [], 0, 1, "", "", [], 0, 0⟩

/-- Two callers write, then the index is compacted, and a manifest is deleted. -/
def quietCompaction : List IndexAction :=
  [.call 0 (.putManifest (emptyManifest "a")), .call 1 (.putManifest (emptyManifest "b")),
    .advance 0, .advance 1] ++ goesOn 1 2 ++ goesOn 0 2 ++ [.compact 2] ++ goesOn 2 3
    ++ [.call 3 (.deleteManifest "a")] ++ goesOn 3 3

theorem compaction_keeps_quiet_updates :
    ∃ entries, Index.openLog .reference
      ((IndexMachine.start "data" .none).run .reference quietCompaction).store.log
      = .ok (((IndexMachine.start "data" .none).run .reference quietCompaction).store.index, entries,
        ((IndexMachine.start "data" .none).run .reference quietCompaction).store.log) :=
  compaction_keeps_updates Crates.reference_lawful "data" .none quietCompaction
    (by decide +kernel) (by decide +kernel)

/-- A manifest is put between the snapshot and the rename. -/
def disturbedCompaction : List IndexAction :=
  [.compact 0, .advance 0, .call 1 (.putManifest (emptyManifest "a")), .advance 1]
    ++ goesOn 0 2 ++ goesOn 1 2

/-- All calls have returned, and the log does not rebuild what is in memory. -/
theorem compaction_loses_update :
    let m := (IndexMachine.start "data" .none).run .reference disturbedCompaction
    m.callers.toList = [] ∧
      ¬ ∃ entries, Index.openLog .reference m.store.log = .ok (m.store.index, entries, m.store.log) := by
  refine ⟨by decide +kernel, ?_⟩
  rintro ⟨entries, h⟩
  have hlog : ((IndexMachine.start "data" .none).run .reference disturbedCompaction).store.log = [] := by
    decide +kernel
  have hmem : ((IndexMachine.start "data" .none).run .reference
      disturbedCompaction).store.index.manifests["a"]? = some (emptyManifest "a") := by
    decide +kernel
  rw [hlog] at h
  have hidx := (Prod.mk.inj (Except.ok.inj h)).1
  rw [← hidx] at hmem
  simp [IndexState.empty] at hmem

end KaidaDB
