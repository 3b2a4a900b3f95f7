import KaidaDB.Storage.Proof.Kept
import KaidaDB.Storage.Proof.Refinement

/-!
# What every reachable index has

The engine changes the index in four ways: it puts or removes a manifest, and it takes or drops a
reference. A property that these keep (`IndexRules`) is kept by every call, also by one that fails,
and holds of every reachable index if it does of the empty one (`IndexRules.reachable`). So no
reachable index has an entry of count 0 (`World.Reachable.counted`).
-/

namespace KaidaDB

open Effects

variable {X : Crates} {P : IndexState → Prop}

/-- The changes of an index do not lead out of `P`. -/
structure IndexRules (P : IndexState → Prop) : Prop where
  put : ∀ {s} (m : MediaManifest), P s → P (applyEntry s (.putManifest m))
  removed : ∀ {s} (key : String), P s → P (applyEntry s (.deleteManifest key))
  added : ∀ {s} (id : ChunkId) (path : String), P s →
    P (applyEntry s (.putChunkLocation id.toHex (addedRef s id path)))
  dropped : ∀ {s} (id : ChunkId), P s → P (s.dropRef id)

/-- A property of the index of a store. -/
abbrev OfIndex (P : IndexState → Prop) (s : Store) : Prop := P s.index

/-! ## Operations that leave the index alone -/

namespace OfIndex

theorem nextPlan : Keeps (OfIndex P) nextPlan := fun _ h => h

theorem writeLog (b : Bytes) : Keeps (OfIndex P) (Index.writeLog b) :=
  fun s h => by
    show P (if s.attached then { s with log := s.log ++ b } else s).index
    split_ifs
    · exact h
    · exact h

theorem appendEntry (entry : LogEntry) (sync : Bool) :
    Keeps (OfIndex P) (Index.appendEntry X entry sync) := by
  refine Keeps.bind nextPlan fun plan => ?_
  dsimp only
  cases plan.append with
  | none => exact Keeps.bind (writeLog _) fun _ _ h => h
  | some fault =>
    cases fault with
    | write n =>
      exact Keeps.bind (writeLog _) fun _ =>
        Keeps.bind (Keeps.throw _) fun _ _ h => h
    | sync =>
      refine Keeps.bind (writeLog _) fun _ => Keeps.get_bind fun s => ?_
      split_ifs
      · exact Keeps.bind (Keeps.throw _) fun _ _ h => h
      · exact fun _ h => h

theorem compact : Keeps (OfIndex P) (Index.compact X) := by
  intro s h
  rw [Index.compact, run_bind, run_get]
  dsimp only
  cases s.io.head.compact with
  | none => exact h
  | some fault =>
    cases fault with
    | beforeRename => exact h
    | afterRename => exact h

theorem maybeCompact : Keeps (OfIndex P) (Index.maybeCompact X) := by
  refine Keeps.get_bind fun s => ?_
  split_ifs
  · exact Keeps.pure ()
  · exact Keeps.pure ()
  · exact keeps_ignoreError compact

theorem writeChunk {id : ChunkId} {data : Bytes} :
    Keeps (OfIndex P) (BlobStore.writeChunk X id data) := by
  refine Keeps.get_bind fun s => Keeps.bind (Keeps.get_bind fun _ => Keeps.pure _) fun found => ?_
  split_ifs
  · exact Keeps.pure _
  · refine Keeps.bind (Keeps.bind nextPlan fun plan => ?_) fun _ => Keeps.pure _
    split_ifs
    · exact Keeps.bind (Keeps.throw _) fun _ _ h => h
    · exact fun _ h => h

theorem deleteChunk (id : ChunkId) : Keeps (OfIndex P) (BlobStore.deleteChunk id) := by
  refine Keeps.get_bind fun s => ?_
  split_ifs
  · refine Keeps.bind nextPlan fun plan => ?_
    split_ifs
    · exact Keeps.bind (Keeps.throw _) fun _ _ h => h
    · exact fun _ h => h
  · exact Keeps.pure ()

theorem gcFiles (indexed : List String) (now : Int) (grace : Nat)
    (files : List (String × ChunkFile)) (report : GcReport) :
    Keeps (OfIndex P) (StorageEngine.gcFiles indexed now grace files report) := by
  induction files generalizing report with
  | nil => exact Keeps.pure _
  | cons p rest ih =>
    rw [StorageEngine.gcFiles]
    split_ifs
    · exact ih _
    · exact ih _
    · refine Keeps.bind nextPlan fun plan => ?_
      split_ifs
      · exact ih _
      · exact Keeps.bind (fun _ h => h) fun _ => ih _

theorem gc (grace : Nat) : Keeps (OfIndex P) (StorageEngine.gc grace) :=
  Keeps.bind (Keeps.get_bind fun _ => Keeps.pure _) fun _ => Keeps.get_bind fun _ =>
    Keeps.bind (Keeps.get_bind fun _ => Keeps.pure _) fun _ =>
      Keeps.bind (gcFiles _ _ _ _ _) fun _ => keeps_gcDangling _ _

end OfIndex

/-! ## Operations that change it -/

/-- An append and the change in memory after it. -/
theorem OfIndex.logged {e : LogEntry} (sync : Bool) {α : Type} {k : Unit → M α} {s : Store}
    (h : P s.index) (he : P (applyEntry s.index e)) (hk : ∀ a, Keeps (OfIndex P) (k a)) :
    OfIndex P (left ((Index.appendEntry X e sync >>= fun _ =>
      (modify fun s => { s with index := applyEntry s.index e } : M Unit) >>= k) s)) := by
  have hsame := OfIndex.appendEntry (X := X) (P := (· = s.index)) e sync s rfl
  rw [run_bind]
  cases happ : Index.appendEntry X e sync s with
  | error err s1 =>
    rw [happ] at hsame
    show P s1.index
    rw [show s1.index = s.index from hsame]
    exact h
  | ok u s1 =>
    rw [happ] at hsame
    refine Keeps.after_bind (s := s1) ?_ hk
    show P (applyEntry s1.index e)
    rw [show s1.index = s.index from hsame]
    exact he

theorem OfIndex.putChunkLocation {id : ChunkId} {loc : ChunkLocation} {s : Store} (h : P s.index)
    (he : P (applyEntry s.index (.putChunkLocation id.toHex loc))) :
    OfIndex P (left (Index.putChunkLocation X id loc s)) := by
  have hrun : OfIndex P (left _) := OfIndex.logged (X := X) false h he fun _ => Keeps.pure ()
  rwa [bind_pure] at hrun

theorem OfIndex.deleteChunkLocation {id : ChunkId} {s : Store} (h : P s.index)
    (he : P (applyEntry s.index (.deleteChunkLocation id.toHex))) :
    OfIndex P (left (Index.deleteChunkLocation X id s)) := by
  have hrun : OfIndex P (left _) := OfIndex.logged (X := X) false h he fun _ => Keeps.pure ()
  rwa [bind_pure] at hrun

namespace IndexRules

variable (R : IndexRules P)
include R

theorem putManifest (m : MediaManifest) : Keeps (OfIndex P) (Index.putManifest X m) := fun _ h =>
  OfIndex.logged true h (R.put m h) fun _ => OfIndex.maybeCompact

theorem deleteManifest (key : String) : Keeps (OfIndex P) (Index.deleteManifest X key) := fun _ h =>
  OfIndex.logged true h (R.removed key h) fun _ => OfIndex.maybeCompact

theorem addChunkRef (id : ChunkId) (path : String) :
    Keeps (OfIndex P) (Index.addChunkRef X id path) := fun _ h =>
  OfIndex.putChunkLocation h (R.added id path h)

theorem decrement (id : ChunkId) : Keeps (OfIndex P) (Index.decrementChunkRef X id) := by
  intro s h
  have hdrop := R.dropped id h
  unfold IndexState.dropRef droppedRef at hdrop
  rw [Index.decrementChunkRef, Index.getChunkLocation]
  simp only [run_bind, run_get, run_pure]
  cases hloc : s.index.chunkLocations[id.toHex]? with
  | none => exact h
  | some loc =>
    rw [hloc] at hdrop
    simp only [Option.map_some] at hdrop
    dsimp only
    split_ifs with hle
    · rw [if_pos hle] at hdrop
      exact Keeps.after_bind (OfIndex.deleteChunkLocation h hdrop) fun _ => Keeps.pure true
    · rw [if_neg hle] at hdrop
      exact Keeps.after_bind (OfIndex.putChunkLocation h hdrop) fun _ => Keeps.pure false

theorem kept : CallsKept X (OfIndex P) where
  toKept := .of_steps (fun _ _ => OfIndex.writeChunk) OfIndex.deleteChunk R.addChunkRef R.decrement
    R.putManifest
  releaseDeleted id := keeps_releaseDeleted (R.decrement id) (OfIndex.deleteChunk id)
  deleteManifest := R.deleteManifest
  gc := OfIndex.gc
  compact := OfIndex.compact

end IndexRules

/-! ## Every call and every run -/

section
variable {I : Store → Prop} {w : World}

theorem keeps_onEngine {α : Type} {x : M α} (reply : α → Reply) (hw : I w.store)
    (hx : Keeps I x) : I (w.onEngine x reply).1.store := by
  have h : I (left (x w.store)) := hx w.store hw
  rw [World.onEngine]
  cases hr : x w.store with
  | ok a s =>
    rw [hr] at h
    exact h
  | error e s =>
    rw [hr] at h
    exact h

theorem keeps_consume {α : Type} {handle : Nat} {x : SM α} (reply : α → Reply) (hw : I w.store)
    (hx : Keeps (OnStore I) x) : I (w.consume handle x reply).1.store := by
  rw [World.consume]
  cases w.sessions[handle]? with
  | none => exact hw
  | some session => exact keeps_onEngine reply hw (keeps_withSession hx)

/-- No call leads out of `I`, if opening the engine and the clock do not. -/
theorem CallsKept.step (K : CallsKept X I) (hw : I w.store)
    (hopen : ∀ {durability s}, Index.openWith X w.store durability = .ok s → I s)
    (hclock : ∀ now, I { w.store with clock := now }) (call : Call) :
    I (w.step X call).1.store := by
  cases call with
  | store key data contentType metadata =>
    exact keeps_onEngine _ hw (K.storeWithMetadata _ _ _ _ _)
  | begin handle key contentType metadata =>
    have hbegin := keeps_beginStore (I := I) w.engine key contentType metadata w.store hw
    rw [World.step]
    split_ifs
    · exact hw
    · cases hr : w.engine.beginStore key contentType metadata w.store with
      | ok session s =>
        rw [hr] at hbegin
        exact hbegin
      | error e s =>
        rw [hr] at hbegin
        exact hbegin
  | write handle data =>
    rw [World.step]
    cases w.sessions[handle]? with
    | none => exact hw
    | some session =>
      have hwrite := K.write data (session, w.store) hw
      dsimp only
      cases hr : StoreSession.write X data (session, w.store) with
      | ok u p =>
        rw [hr] at hwrite
        exact hwrite
      | error e p =>
        rw [hr] at hwrite
        exact hwrite
  | finish handle => exact keeps_consume _ hw K.finish
  | abort handle => exact keeps_consume _ hw K.abort
  | drop handle =>
    rw [World.step]
    split_ifs
    · exact hw
    · exact hw
  | read key =>
    rw [step_read]
    exact hw
  | delete key => exact keeps_onEngine _ hw (K.delete key)
  | rename fromKey toKey => exact keeps_onEngine _ hw (K.rename fromKey toKey)
  | gc grace => exact keeps_onEngine _ hw (K.gc grace)
  | compact => exact keeps_onEngine _ hw K.compact
  | reopen engine durability =>
    rw [World.step]
    cases hr : Index.openWith X w.store durability with
    | ok s => exact hopen hr
    | error e => exact hw
  | tick now => exact hclock now

end

namespace IndexRules

variable (R : IndexRules P)
include R

theorem step (hX : X.Lawful) {D : Set Bytes} {w : World} {s : Spec}
    (h : Sim X D w s) (hw : P w.store.index) (call : Call) :
    P (w.step X call).1.store.index := by
  have hopen : ∀ {durability st}, Index.openWith X w.store durability = .ok st → P st.index := by
    -- the log rebuilds the index as it was
    intro durability st hst
    obtain ⟨entries, hopen⟩ := (h.healthy.2 rfl).openWith hX durability
    cases hopen.symm.trans hst
    exact hw
  exact R.kept.step (I := OfIndex P) hw hopen (fun _ => hw) call

theorem run (hX : X.Lawful) (calls : List Call) {w : World} {s : Spec}
    (h : Sim X Set.univ w s) (hw : P w.store.index) (hsized : ∀ call ∈ calls, call.Sized) :
    P (w.run X calls).1.store.index := by
  induction calls generalizing w s with
  | nil => exact hw
  | cons call calls ih =>
    exact ih (h.next hX call (hsized call List.mem_cons_self) fun _ _ => trivial)
      (R.step hX h hw call) fun c hc => hsized c (List.mem_cons_of_mem _ hc)

/-- **What the changes of an index keep holds of every reachable one.** -/
theorem reachable (hX : X.Lawful) (hempty : P .empty) {w : World} (hw : w.Reachable X) :
    P w.store.index := by
  obtain ⟨engine, dataDir, calls, hsize, hsized, rfl⟩ := hw
  exact R.run hX calls (Sim.fresh hsize dataDir) hempty hsized

end IndexRules

theorem counted_rules : IndexRules IndexState.Counted where
  put _ h := h
  removed _ h := h
  added id path h := addedRef_counted h id path
  dropped id h := dropRef_counted h id

/-- No entry of a reachable index has count 0. -/
theorem World.Reachable.counted (hX : X.Lawful) {w : World} (hw : w.Reachable X) :
    w.store.index.Counted :=
  counted_rules.reachable hX (fun hex loc h => by simp [IndexState.empty] at h) hw

end KaidaDB
