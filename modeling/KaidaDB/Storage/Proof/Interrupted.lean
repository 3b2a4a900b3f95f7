import Mathlib.Data.Stream.Init
import KaidaDB.Storage.Stop
import KaidaDB.Storage.Proof.Refinement

/-!
# What a call that stops midway has done

`Dropped d c c'`: from `c` to `c'` every chunk `a` loses `d a` references, and no file of a chunk
that still has one is touched. A delete makes its `deleteSteps` one after the other until one fails
(`does_releases_made`, `does_delete_made`); what it has done by then is `Dropped` for the
references it dropped, and the manifest is gone if its entry was reached.
-/

namespace KaidaDB

open Std Effects

variable {X : Crates} {D : Set Bytes} {logged : Bool} {c : View} {need : ChunkId → Int}

/-! ## Plans -/

/-- No plan detaches the log, and with `logged` no append leaves part of a line. -/
def Clean (logged : Bool) (io : Stream' IoPlan) : Prop :=
  ∀ i, (io.get i).compact ≠ some .afterRename ∧
    (logged = true → (io.get i).append = none ∨ (io.get i).append = some (.write 0))

theorem Clean.tail {io : Stream' IoPlan} (h : Clean logged io) : Clean logged io.tail := fun i =>
  h (i + 1)

theorem clean_crash (n : Nat) (engine : StorageEngine) (durability : Durability) :
    Clean true (Stop.crash n engine durability).io := by
  intro i
  have hi : (Stop.crash n engine durability).io.get i = if i < n then .ok else .stopped := rfl
  rw [hi]
  split_ifs <;> simp [IoPlan.ok, IoPlan.stopped]

theorem clean_ioError (n : Nat) (fault : AppendFault) :
    Clean false (Stop.ioError n fault).io := by
  intro i
  have hi : (Stop.ioError n fault).io.get i
      = if i = n then ⟨some fault, true, true, none⟩ else .ok := rfl
  rw [hi]
  split_ifs <;> simp [IoPlan.ok]

theorem appends_of_drop {id : ChunkId}
    (h : (DiskStep.drop id).fails c.durability c.io.head = false) : c.Appends false := by
  rw [DiskStep.fails, decide_eq_false_iff_not] at h
  by_cases h0 : c.io.head.append = none
  · exact .inl h0
  · exact .inr ⟨by by_contra h1; exact h ⟨h0, h1⟩, by simp⟩

theorem fails_of_drop (hio : Clean logged c.io) {id : ChunkId}
    (h : (DiskStep.drop id).fails c.durability c.io.head = true) : c.FailsAppend logged false := by
  obtain ⟨h0, h1⟩ := of_decide_eq_true h
  rcases hp : c.io.head.append with _ | n | _
  · exact absurd hp h0
  · refine .inl ⟨n, hp, fun hl => ?_⟩
    rcases (hio 0).2 hl with h2 | h2
    · exact absurd h2 h0
    · cases hp.symm.trans h2
      rfl
  · exact absurd hp h1

theorem appends_of_manifest (h : DiskStep.manifest.fails c.durability c.io.head = false) :
    c.Appends true := by
  rw [DiskStep.fails, decide_eq_false_iff_not] at h
  by_cases h0 : c.io.head.append = none
  · exact .inl h0
  · obtain ⟨h1, h2⟩ := Classical.not_imp.1 fun h1 => h ⟨h0, h1⟩
    exact .inr ⟨h1, fun h3 => h2 h3.2⟩

theorem fails_of_manifest (hio : Clean logged c.io)
    (h : DiskStep.manifest.fails c.durability c.io.head = true) : c.FailsAppend logged true := by
  obtain ⟨h0, h1⟩ := of_decide_eq_true h
  have hlog : logged = true → c.io.head.append = some (.write 0) := fun hl =>
    ((hio 0).2 hl).resolve_left h0
  rcases hp : c.io.head.append with _ | n | _
  · exact absurd hp h0
  · refine .inl ⟨n, hp, fun hl => ?_⟩
    cases hp.symm.trans (hlog hl)
    rfl
  · refine .inr ⟨?_, hp, rfl, h1 hp⟩
    cases logged with
    | false => rfl
    | true => cases hp.symm.trans (hlog rfl)

/-! ## References dropped -/

structure Dropped (d : ChunkId → Nat) (c c' : View) : Prop where
  refs : ∀ id, c'.index.refCount id = c.index.refCount id - d id
  files : ∀ id, 0 < c'.index.refCount id → c'.files[id.toHex]? = c.files[id.toHex]?

namespace Dropped

theorem refl {c c' : View} (hi : c'.index.chunkLocations = c.index.chunkLocations)
    (hf : c'.files = c.files) : Dropped (fun _ => 0) c c' where
  refs id := by rw [IndexState.refCount, hi]; rfl
  files id _ := by rw [hf]

theorem trans {d d' : ChunkId → Nat} {c1 c2 c3 : View} (h : Dropped d c1 c2)
    (h' : Dropped d' c2 c3) : Dropped (fun a => d a + d' a) c1 c3 where
  refs id := by rw [h'.refs, h.refs, Nat.sub_sub]
  files id hpos := by
    have := h'.refs id
    rw [h'.files id hpos, h.files id (by omega)]

theorem congr {d d' : ChunkId → Nat} {c1 c2 : View} (h : Dropped d c1 c2) (hd : ∀ a, d a = d' a) :
    Dropped d' c1 c2 := funext hd ▸ h

theorem frame {d : ChunkId → Nat} {c c1 c2 : View} (h : Dropped d c c1)
    (hi : c2.index.chunkLocations = c1.index.chunkLocations) (hf : c2.files = c1.files) :
    Dropped d c c2 := (h.trans (refl hi hf)).congr fun _ => Nat.add_zero _

/-- The entry alone. -/
theorem entry {c c' : View} {id : ChunkId} (hi : c'.index = c.index.dropRef id)
    (hf : c'.files = c.files) : Dropped (fun a => if id = a then 1 else 0) c c' where
  refs a := by
    rw [hi, refCount_dropRef]
    split_ifs <;> rfl
  files a _ := by rw [hf]

theorem released (c : View) (id : ChunkId) :
    Dropped (fun a => if id = a then 1 else 0) c (c.released id) where
  refs a := by
    rw [released_index, refCount_dropRef]
    split_ifs <;> rfl
  files a hpos := by
    rw [released_index, refCount_dropRef] at hpos
    rw [released_files, if_neg]
    rintro ⟨hlast, hhex⟩
    have := ((lastRef_iff _ _).1 hlast).2
    rw [if_pos (ChunkId.toHex_injective hhex), ← ChunkId.toHex_injective hhex] at hpos
    omega

theorem releases : ∀ (ids : List ChunkId) (c : View),
    Dropped (fun a => ids.count a) c (ids.foldl View.released c)
  | [], _ => refl rfl rfl
  | id :: ids, c => ((released c id).trans (releases ids _)).congr fun a => by
    rw [List.count_cons, Nat.add_comm]
    simp

end Dropped

/-! ## Steps up to one that fails -/

theorem made_initial (d : Durability) : ∀ (io : Stream' IoPlan) (l : List DiskStep),
    made d io l <+: l
  | _, [] => List.prefix_rfl
  | io, step :: l => by
    rw [made]
    split_ifs
    · exact List.nil_prefix
    · exact List.cons_prefix_cons.2 ⟨rfl, made_initial d io.tail l⟩

theorem made_append {d : Durability} : ∀ {io : Stream' IoPlan} {l l' : List DiskStep},
    made d io l = l → made d io (l ++ l') = l ++ made d (io.drop l.length) l'
  | _, [], _, _ => rfl
  | io, step :: l, l', h => by
    rw [made] at h
    split_ifs at h with hf
    rw [List.cons_append, made, if_neg hf, made_append (List.cons.inj h).2]
    rfl

theorem made_append_of_ne {d : Durability} : ∀ {io : Stream' IoPlan} {l : List DiskStep}
    (l' : List DiskStep), made d io l ≠ l → made d io (l ++ l') = made d io l
  | _, [], _, h => absurd rfl h
  | io, step :: l, l', h => by
    rw [made] at h
    rw [List.cons_append, made, made]
    split_ifs at h ⊢ with hf
    · rfl
    · rw [made_append_of_ne l' fun he => h (by rw [he])]

theorem made_append_ne {d : Durability} {io : Stream' IoPlan} {l : List DiskStep}
    (l' : List DiskStep) (h : made d io l ≠ l) : made d io (l ++ l') ≠ l ++ l' := by
  intro he
  rw [made_append_of_ne l' h] at he
  have hlen := (made_initial d io l).length_le
  rw [he, List.length_append] at hlen
  have hnil : l' = [] := List.eq_nil_of_length_eq_zero (by omega)
  exact h (by rw [he, hnil, List.append_nil])

def View.made (c : View) (steps : List DiskStep) : List DiskStep :=
  KaidaDB.made c.durability c.io steps

/-- What a call returns that has made some of its steps. -/
def endOf {α : Type} (done steps : List DiskStep) (a : α) : Except Fail α :=
  if done = steps then .ok a else .error ioError

theorem endOf_self {α : Type} (l : List DiskStep) (a : α) : endOf l l a = .ok a := if_pos rfl

/-- From `c` the program `x`, which keeps the manifests, makes `steps` until one fails; it returns
`a` when none does. -/
structure Makes {α : Type} (X : Crates) (logged : Bool) (x : M α) (a : α) (steps : List DiskStep)
    (c c' : View) : Prop where
  does : Does (lens X logged) x c (endOf (c.made steps) steps a) c'
  durability : c'.durability = c.durability
  manifests : c'.index.manifests = c.index.manifests
  io : c.made steps = steps → c'.io = c.io.drop steps.length
  dropped : Dropped (fun id => (c.made steps).count (.drop id)) c c'

namespace Makes

variable {α β : Type} {x : M α} {f : α → M β} {a : α} {b : β} {steps steps' : List DiskStep}
  {c1 c' : View}

theorem pure (a : α) : Makes X logged (Pure.pure a) a [] c c :=
  ⟨Does.pure a, rfl, rfl, fun _ => rfl, Dropped.refl rfl rfl⟩

theorem made_append (hx : Makes X logged x a steps c c1) (hall : c.made steps = steps)
    (steps' : List DiskStep) : c.made (steps ++ steps') = steps ++ c1.made steps' := by
  rw [View.made, View.made, hx.io hall, hx.durability]
  exact KaidaDB.made_append hall

theorem bind (hx : Makes X logged x a steps c c1) (hall : c.made steps = steps)
    (hy : Makes X logged (f a) b steps' c1 c') :
    Makes X logged (x >>= f) b (steps ++ steps') c c' := by
  have hmade := hx.made_append hall steps'
  have hend : endOf (c.made (steps ++ steps')) (steps ++ steps') b
      = endOf (c1.made steps') steps' b := by
    simp only [endOf, hmade, List.append_cancel_left_eq]
  have hdoes := hx.does
  rw [endOf, if_pos hall] at hdoes
  refine ⟨hend ▸ Does.bind hdoes hy.does, hy.durability.trans hx.durability,
    hy.manifests.trans hx.manifests, fun h => ?_, (hx.dropped.trans hy.dropped).congr fun id => ?_⟩
  · rw [hmade] at h
    rw [hy.io (List.append_cancel_left h), hx.io hall, List.length_append, Stream'.drop_drop]
  · rw [hmade, hall, List.count_append]

theorem bind_stop (hx : Makes X logged x a steps c c') (hne : c.made steps ≠ steps)
    (steps' : List DiskStep) (b : β) : Makes X logged (x >>= f) b (steps ++ steps') c c' := by
  have hne' : c.made (steps ++ steps') ≠ steps ++ steps' := made_append_ne steps' hne
  have hdoes := hx.does
  rw [endOf, if_neg hne] at hdoes
  refine ⟨?_, hx.durability, hx.manifests, fun h => absurd h hne', hx.dropped.congr fun id => ?_⟩
  · rw [endOf, if_neg hne']
    exact Does.bind_error hdoes
  · rw [View.made, View.made, made_append_of_ne steps' hne]

end Makes

/-! ## Releases -/

theorem droppedRef_of_pos {s : IndexState} {id : ChunkId} (h : 0 < s.refCount id) :
    ∃ op, droppedRef s id = some op ∧ applyEntry s op.entry = s.dropRef id := by
  cases hloc : s.chunkLocations[id.toHex]? with
  | none =>
    rw [IndexState.refCount, hloc] at h
    exact absurd h (Nat.lt_irrefl 0)
  | some loc =>
    have hop : droppedRef s id = some _ := congrArg (Option.map _) hloc
    exact ⟨_, hop, by rw [IndexState.dropRef, hop]⟩

/-- The entry that drops a reference. -/
theorem makes_drop {id : ChunkId} (hpos : 0 < c.index.refCount id) (hio : Clean logged c.io) :
    ∃ c', Makes X logged (Index.decrementChunkRef X id) (lastRef c.index id) [.drop id] c c' ∧
      (c.made [.drop id] = [.drop id] → c'.index = c.index.dropRef id ∧ c'.files = c.files) := by
  obtain ⟨op, hop, hdrop⟩ := droppedRef_of_pos hpos
  cases hf : (DiskStep.drop id).fails c.durability c.io.head with
  | true =>
    have hdone : c.made [.drop id] = [] := by simp [View.made, made, hf]
    refine ⟨{ c with io := c.io.tail }, ⟨?_, rfl, rfl, ?_, ?_⟩, ?_⟩
    all_goals rw [hdone]
    · exact does_decrementChunkRef_error hop (fails_of_drop hio hf)
    · exact fun h => by cases h
    · exact Dropped.refl rfl rfl
    · exact fun h => by cases h
  | false =>
    have hdone : c.made [.drop id] = [.drop id] := by simp [View.made, made, hf]
    have hidx : (c.applied op.entry).index = c.index.dropRef id := hdrop
    refine ⟨c.applied op.entry, ⟨?_, rfl, ?_, fun _ => rfl, ?_⟩, fun _ => ⟨hidx, rfl⟩⟩
    · rw [hdone, endOf_self]
      exact does_decrementChunkRef hop (appends_of_drop hf)
    · rw [hidx, dropRef_manifests]
    · refine (Dropped.entry hidx rfl).congr fun a => ?_
      simp [hdone, List.count_singleton]

/-- The removal of a file. -/
theorem makes_unlink {id : ChunkId} (hf : c.files.contains id.toHex = true)
    (h0 : c.index.refCount id = 0) :
    ∃ c', Makes X logged (BlobStore.deleteChunk id) () [.unlink id] c c' ∧
      (c.made [.unlink id] = [.unlink id] → c'.index = c.index ∧
        c'.files = c.files.erase id.toHex) := by
  cases hr : c.io.head.removeFails with
  | true =>
    have hdone : c.made [.unlink id] = [] := by simp [View.made, made, DiskStep.fails, hr]
    refine ⟨{ c with io := c.io.tail }, ⟨?_, rfl, rfl, ?_, ?_⟩, ?_⟩
    all_goals rw [hdone]
    · exact does_deleteChunk_error hf hr
    · exact fun h => by cases h
    · exact Dropped.refl rfl rfl
    · exact fun h => by cases h
  | false =>
    have hdone : c.made [.unlink id] = [.unlink id] := by
      simp [View.made, made, DiskStep.fails, hr]
    have hc : c.unlinked id = { c with files := c.files.erase id.toHex, io := c.io.tail } :=
      if_pos hf
    refine ⟨{ c with files := c.files.erase id.toHex, io := c.io.tail },
      ⟨?_, rfl, rfl, fun _ => rfl, ⟨fun a => ?_, fun a ha => ?_⟩⟩, fun _ => ⟨rfl, rfl⟩⟩
    · rw [hdone, endOf_self, ← hc]
      exact does_deleteChunk hr
    · simp [hdone]
    · have hne : id ≠ a := fun he => by
        subst he
        exact absurd ha (by show ¬ 0 < c.index.refCount id; omega)
      simp [toHex_ne hne]

/-- The steps of one release. -/
def releaseStep (refs : ChunkId → Nat) (id : ChunkId) : List DiskStep :=
  [.drop id] ++ if refs id ≤ 1 then [.unlink id] else []

theorem releaseSteps_cons (refs : ChunkId → Nat) (id : ChunkId) (ids : List ChunkId) :
    releaseSteps refs (id :: ids) = releaseStep refs id
      ++ releaseSteps (fun a => if id = a then refs a - 1 else refs a) ids := by
  rw [releaseSteps, releaseStep]
  split_ifs <;> rfl

/-- One release: complete, it leaves index and files as `View.released` does. -/
theorem makes_release (hs : Sound X D c need) {id : ChunkId} (hpos : 0 < c.index.refCount id)
    (hio : Clean logged c.io) :
    ∃ c', Makes X logged (StorageEngine.releaseDeleted X id) ()
        (releaseStep c.index.refCount id) c c' ∧
      (c.made (releaseStep c.index.refCount id) = releaseStep c.index.refCount id →
        c'.index = (c.released id).index ∧ c'.files = (c.released id).files) := by
  obtain ⟨c1, hdrop, hc1⟩ := makes_drop (X := X) hpos hio
  have hloc : (c.index.chunkLocations[id.toHex]?).isSome := by
    by_contra hnone
    rw [IndexState.refCount, Option.not_isSome_iff_eq_none.1 hnone] at hpos
    exact absurd hpos (Nat.lt_irrefl 0)
  have hlast : lastRef c.index id = true ↔ c.index.refCount id ≤ 1 := by
    rw [lastRef_iff]
    exact and_iff_right hloc
  unfold releaseStep
  by_cases hall : c.made [.drop id] = [.drop id]
  · obtain ⟨hidx, hfiles⟩ := hc1 hall
    by_cases hle : c.index.refCount id ≤ 1
    · -- the last reference: the file goes with it
      obtain ⟨loc, hloc⟩ := Option.isSome_iff_exists.1 hloc
      have hfile : c1.files.contains id.toHex = true :=
        (FinMap.contains_iff _ _).2 (hfiles ▸ hs.present _ loc hloc)
      have h0 : c1.index.refCount id = 0 := by
        rw [hidx, refCount_dropRef, if_pos rfl]
        omega
      obtain ⟨c', hunlink, hc'⟩ := @makes_unlink X logged _ _ hfile h0
      have hx : Makes X logged (StorageEngine.releaseDeleted X id) () _ c c' :=
        hdrop.bind hall (by rw [hlast.2 hle]; exact hunlink)
      rw [if_pos hle]
      refine ⟨c', hx, fun h => ?_⟩
      rw [hdrop.made_append hall] at h
      obtain ⟨hidx', hfiles'⟩ := hc' (List.append_cancel_left h)
      have hcontains : View.files { c with index := c.index.dropRef id } |>.contains id.toHex :=
        hfiles ▸ hfile
      refine ⟨by rw [hidx', hidx, released_index], ?_⟩
      rw [View.released, if_pos (hlast.2 hle), View.unlinked, if_pos hcontains, hfiles', hfiles]
    · have hx : Makes X logged (StorageEngine.releaseDeleted X id) () _ c c1 :=
        hdrop.bind hall (by
          rw [if_neg fun h => hle (hlast.1 h)]
          exact Makes.pure ())
      rw [if_neg hle]
      refine ⟨c1, hx, fun _ => ?_⟩
      rw [released_index, View.released, if_neg fun h => hle (hlast.1 h)]
      exact ⟨hidx, hfiles⟩
  · refine ⟨c1, hdrop.bind_stop hall _ (), fun h => absurd h (made_append_ne _ hall)⟩

theorem makes_releases : ∀ (ids : List ChunkId) {c : View} {need : ChunkId → Int},
    Sound X D c need → (∀ a, ids.count a ≤ c.index.refCount a) → Clean logged c.io →
    ∃ c', Makes X logged (ids.forM (StorageEngine.releaseDeleted X)) ()
      (releaseSteps c.index.refCount ids) c c'
  | [], c, _, _, _, _ => ⟨c, Makes.pure ()⟩
  | id :: ids, c, need, hs, hids, hio => by
    have hpos : 0 < c.index.refCount id := by
      have := hids id
      rw [List.count_cons_self] at this
      omega
    obtain ⟨c1, h1, hc1⟩ := makes_release (X := X) hs hpos hio
    rw [releaseSteps_cons]
    by_cases hall : c.made (releaseStep c.index.refCount id) = releaseStep c.index.refCount id
    · obtain ⟨hidx, hfiles⟩ := hc1 hall
      have hrefs : c1.index.refCount = fun a =>
          if id = a then c.index.refCount a - 1 else c.index.refCount a := by
        funext a
        rw [hidx, released_index, refCount_dropRef]
      have hids1 : ∀ a, ids.count a ≤ c1.index.refCount a := by
        intro a
        have := hids a
        rw [List.count_cons] at this
        rw [hrefs]
        by_cases ha : id = a
        · simp only [ha, beq_self_eq_true, if_true] at this ⊢
          omega
        · simpa [ha] using this
      have hio1 : Clean logged c1.io := fun i => by
        rw [h1.io hall]
        exact hio _
      obtain ⟨c', h2⟩ := makes_releases ids ((hs.released id).frame hidx hfiles) hids1 hio1
      rw [hrefs] at h2
      exact ⟨c', h1.bind hall h2⟩
    · exact ⟨c1, h1.bind_stop hall _ ()⟩

/-! ## Delete -/

theorem manifest_not_mem_releaseSteps : ∀ (ids : List ChunkId) (refs : ChunkId → Nat),
    .manifest ∉ releaseSteps refs ids
  | [], _ => List.not_mem_nil
  | id :: ids, refs => by
    have ih := manifest_not_mem_releaseSteps ids fun a => if id = a then refs a - 1 else refs a
    rw [releaseSteps]
    split_ifs <;> simpa using ih

/-- A delete up to the stop. -/
theorem does_delete_made (hs : Sound X D c need) (hneed : ∀ a, 0 ≤ need a) {key : String}
    {m : MediaManifest} (hm : c.index.manifests[key]? = some m) (hio : Clean logged c.io) :
    ∃ r c', Does (lens X logged) (StorageEngine.delete X key) c r c' ∧
      Dropped (fun a => (c.made (deleteSteps c.index key)).count (.drop a)) c c' ∧
      c'.durability = c.durability ∧
      c'.index.manifests = (if .manifest ∈ c.made (deleteSteps c.index key) then
        c.index.manifests.erase key else c.index.manifests) := by
  have hids : ∀ a, m.chunks.count a ≤ c.index.refCount a := by
    intro a
    have := hs.counts a
    have := hneed a
    have := count_le_occurrences hm a
    omega
  obtain ⟨c1, h1⟩ := makes_releases (X := X) m.chunks hs hids hio
  have hnone := manifest_not_mem_releaseSteps m.chunks c.index.refCount
  have hsteps : deleteSteps c.index key
      = releaseSteps c.index.refCount m.chunks ++ [.manifest] := by rw [deleteSteps, hm]
  generalize releaseSteps c.index.refCount m.chunks = steps at *
  have hdelete : ∀ {r : Except Fail Bool} {c' : View}, Does (lens X logged) (do
      m.chunks.forM (StorageEngine.releaseDeleted X)
      Index.deleteManifest X key
      return true) c r c' → Does (lens X logged) (StorageEngine.delete X key) c r c' := by
    intro r c' h
    refine Does.bind does_getManifest ?_
    rw [hm]
    exact h
  rw [hsteps]
  by_cases hall : c.made steps = steps
  · have hx := h1.does
    rw [hall, endOf_self] at hx
    have hio1 : Clean logged c1.io := fun i => by
      rw [h1.io hall]
      exact hio _
    have hdropped : Dropped (fun a => steps.count (.drop a)) c c1 := by
      simpa only [hall] using h1.dropped
    rw [h1.made_append hall]
    cases hf : DiskStep.manifest.fails c1.durability c1.io.head with
    | true =>
      have hdone : c1.made [.manifest] = [] := by simp [View.made, made, hf]
      rw [hdone, List.append_nil, if_neg hnone]
      exact ⟨.error ioError, { c1 with io := c1.io.tail },
        hdelete (Does.bind hx (Does.bind_error (does_deleteManifest_error
          (fails_of_manifest hio1 hf)))),
        hdropped.frame rfl rfl, h1.durability, h1.manifests⟩
    | false =>
      have hdone : c1.made [.manifest] = [.manifest] := by simp [View.made, made, hf]
      have hdropped' : Dropped _ c (c1.applied (.deleteManifest key)) := hdropped.frame rfl rfl
      rw [hdone, if_pos (by simp)]
      refine ⟨.ok true, c1.applied (.deleteManifest key), hdelete (Does.bind hx (Does.bind
        (does_deleteManifest (appends_of_manifest hf) (hio1 1).1) (Does.pure true))),
        hdropped'.congr fun a => ?_, h1.durability,
        congrArg (fun t => t.erase key) h1.manifests⟩
      simp
  · have hx := h1.does
    rw [endOf, if_neg hall] at hx
    have hdone : c.made (steps ++ [.manifest]) = c.made steps := made_append_of_ne _ hall
    have hnot : .manifest ∉ c.made steps := fun h =>
      hnone ((made_initial c.durability c.io steps).subset h)
    rw [hdone, if_neg hnot]
    exact ⟨.error ioError, c1, hdelete (Does.bind_error hx), h1.dropped, h1.durability,
      h1.manifests⟩

/-! ## The world after the stop -/

/-- A call that leaves the log in step with the index: so it is after the stop. -/
theorem interrupted_of_logged (hX : X.Lawful) {w : World} (hw : (lens X true).healthy w.store)
    {α : Type} {call : Call} {x : M α} {reply : α → Reply}
    (hcall : ∀ v : World, v.step X call = v.onEngine x reply) (stop : Stop)
    {r : Except Fail α} {c' : View}
    (h : Does (lens X true) x { w.store.view with io := stop.io } r c') :
    (lens X true).healthy (w.interrupted X stop call).store ∧
      (w.interrupted X stop call).store.view.Calm ∧
      (w.interrupted X stop call).store.index = c'.index ∧
      (w.interrupted X stop call).store.files = c'.files := by
  let v : World := { w with store := { w.store with io := stop.io } }
  obtain ⟨st, h1, ⟨ha, hl⟩, rfl⟩ := h v.store hw rfl
  have hrun : (v.step X call).1 = { w with store := st } := by
    rw [hcall, World.onEngine, h1]
    cases r <;> rfl
  cases stop with
  | crash n engine durability =>
    have hlogged : Store.Logged X { st with io := Stream'.const .ok } := hl rfl
    obtain ⟨entries, hopen⟩ := hlogged.openWith hX durability
    have hworld : w.interrupted X (.crash n engine durability) call
        = ⟨engine, { st with
          io := Stream'.const .ok, durability := durability, logEntries := entries,
          attached := true }, ∅⟩ := by
      rw [World.interrupted]
      dsimp only
      rw [hrun, World.step, hopen]
    rw [hworld]
    exact ⟨⟨rfl, hl⟩, rfl, rfl, rfl⟩
  | ioError n fault =>
    have hworld : w.interrupted X (.ioError n fault) call
        = { w with store := { st with io := Stream'.const .ok } } := by
      rw [World.interrupted]
      dsimp only
      rw [hrun]
    rw [hworld]
    exact ⟨⟨ha, hl⟩, rfl, rfl, rfl⟩

/-- What a call that stops leaves of index and files, whether the engine is opened again or not. -/
theorem interrupted_of_does (hX : X.Lawful) {w : World} (hw : (lens X true).healthy w.store)
    {α : Type} {call : Call} {x : M α} {reply : α → Reply}
    (hcall : ∀ v : World, v.step X call = v.onEngine x reply) (stop : Stop) {P : View → Prop}
    (h : ∀ logged, Clean logged stop.io →
      ∃ r c', Does (lens X logged) x { w.store.view with io := stop.io } r c' ∧ P c') :
    ∃ c', P c' ∧ (lens X false).healthy (w.interrupted X stop call).store ∧
      (w.interrupted X stop call).store.view.Calm ∧
      (w.interrupted X stop call).store.index = c'.index ∧
      (w.interrupted X stop call).store.files = c'.files := by
  cases stop with
  | crash n engine durability =>
    obtain ⟨r, c', hx, hP⟩ := h true (clean_crash n engine durability)
    obtain ⟨⟨ha, -⟩, hcalm, hidx, hfiles⟩ := interrupted_of_logged hX hw hcall _ hx
    exact ⟨c', hP, ⟨ha, fun h => by cases h⟩, hcalm, hidx, hfiles⟩
  | ioError n fault =>
    let v : World := { w with store := { w.store with io := (Stop.ioError n fault).io } }
    obtain ⟨r, c', hx, hP⟩ := h false (clean_ioError n fault)
    obtain ⟨st, h1, ⟨ha, -⟩, rfl⟩ := hx v.store ⟨hw.1, fun h => by cases h⟩ rfl
    have hrun : (v.step X call).1 = { w with store := st } := by
      rw [hcall, World.onEngine, h1]
      cases r <;> rfl
    have hworld : w.interrupted X (.ioError n fault) call
        = { w with store := { st with io := Stream'.const .ok } } := by
      rw [World.interrupted]
      dsimp only
      rw [hrun]
    rw [hworld]
    exact ⟨st.view, hP, ⟨ha, fun h => by cases h⟩, rfl, rfl, rfl⟩

end KaidaDB
