import KaidaDB.Lib.Stops
import KaidaDB.Storage.Engine

/-!
# What every operation of a session keeps

`Kept X I`: what sessions do to chunk files and index does not lead out of `I`, whether it succeeds
or fails. Then no call on a session does (`Kept.write`, `Kept.finish`, `Kept.abort`). The calls of
`write` only flush and fill the buffer, so they keep whatever a flush keeps, also when it speaks
about the session (`keeps_write`). `CallsKept X I` says the same of the other calls on the engine.
-/

namespace KaidaDB

open Effects

variable {X : Crates} {I : Store → Prop}

/-! ## Programs on a session -/

/-- A property of the store a session works on. -/
abbrev OnStore (I : Store → Prop) (p : StoreSession × Store) : Prop := I p.2

theorem left_onStore {α : Type} (x : M α) (p : StoreSession × Store) :
    left (onStore x p) = (p.1, left (x p.2)) := by
  rw [onStore]
  cases x p.2 <;> rfl

theorem left_withSession {α : Type} (t : StoreSession) (x : SM α) (s : Store) :
    left (withSession t x s) = (left (x (t, s))).2 := by
  rw [withSession]
  cases x (t, s) <;> rfl

theorem keeps_onStore {α : Type} {x : M α} (h : Keeps I x) : Keeps (OnStore I) (onStore x) := by
  intro p hp
  rw [left_onStore]
  exact h p.2 hp

theorem onStore_bind {α β : Type} (x : M α) (f : α → M β) :
    onStore (x >>= f) = onStore x >>= fun a => onStore (f a) := by
  funext p
  rw [onStore, run_bind, run_bind, onStore]
  cases x p.2 <;> rfl

theorem keeps_onSession (f : StoreSession → StoreSession) : Keeps (OnStore I) (onSession f) :=
  fun _ h => h

theorem keeps_withSession {α : Type} {x : SM α} {t : StoreSession} (h : Keeps (OnStore I) x) :
    Keeps I (withSession t x) := by
  intro s hs
  rw [left_withSession]
  exact h (t, s) hs

theorem keeps_ignoreError {α : Type} {x : M α} (h : Keeps I x) : Keeps I (ignoreError x) := by
  refine Keeps.tryCatch (Keeps.map _ h) fun e => ?_
  cases e with
  | error e => exact Keeps.pure ()
  | panic message => exact Keeps.throw _
  | diverges => exact Keeps.throw _

theorem keeps_getManifest (key : String) : Keeps I (Index.getManifest key) :=
  Keeps.get_bind fun _ => Keeps.pure _

theorem keeps_nowSecs : Keeps I nowSecs := Keeps.get_bind fun _ => Keeps.pure _

theorem keeps_check {ε σ α : Type} {I : σ → Prop} (x : Except ε α) :
    Keeps I (check x : EStateM ε σ α) := by
  cases x with
  | ok a => exact Keeps.pure a
  | error e => exact Keeps.throw e

theorem keeps_beginStore (engine : StorageEngine) (key contentType : String)
    (metadata : List (String × String)) :
    Keeps I (engine.beginStore key contentType metadata) := by
  refine Keeps.bind (keeps_check _) fun _ => ?_
  split_ifs
  · exact Keeps.bind (Keeps.throw _) fun _ => Keeps.pure _
  · exact Keeps.bind (Keeps.pure ()) fun _ => Keeps.pure _

/-- The pass over the index only counts. -/
theorem keeps_gcDangling (hexes : List String) (report : GcReport) :
    Keeps I (StorageEngine.gcDangling hexes report) := by
  induction hexes generalizing report with
  | nil => exact Keeps.pure _
  | cons hex rest ih =>
    rw [StorageEngine.gcDangling]
    cases ChunkId.fromHex hex with
    | panic => exact Keeps.throw _
    | err => exact ih _
    | ok id =>
      refine Keeps.bind (Keeps.get_bind fun _ => Keeps.pure _) fun found => ?_
      split_ifs
      · exact ih _
      · exact ih _

/-! ## Writing -/

section
variable {J : StoreSession × Store → Prop}
  (hfill : ∀ b : Bytes, Keeps J (onSession fun s => { s with buf := s.buf ++ b }))
  (hflush : Keeps J (StoreSession.flushChunk X))
include hfill hflush

theorem keeps_writeLoop (n : Nat) (data : Bytes) : Keeps J (StoreSession.writeLoop X n data) := by
  induction n generalizing data with
  | zero =>
    rw [StoreSession.writeLoop]
    split_ifs
    · exact Keeps.pure ()
    · exact Keeps.throw _
  | succ n ih =>
    rw [StoreSession.writeLoop]
    split_ifs
    · exact Keeps.pure ()
    · refine Keeps.get_bind fun p => Keeps.bind (hfill _) fun _ => ?_
      refine Keeps.get_bind fun q => ?_
      split_ifs
      · exact Keeps.bind hflush fun _ => ih _
      · exact ih _

theorem keeps_write (data : Bytes) : Keeps J (StoreSession.write X data) := by
  refine Keeps.get_bind fun p => ?_
  dsimp only
  split_ifs
  · exact Keeps.bind (Keeps.throw _) fun _ => keeps_writeLoop hfill hflush _ _
  · exact keeps_writeLoop hfill hflush _ _

end

/-! ## Calls -/

/-- What is left of `finish` once it has put its manifest. -/
def StoreSession.releasePrevious (X : Crates) (previous : Option MediaManifest) (m : MediaManifest) :
    SM MediaManifest := do
  match previous with
  | some old => onStore (old.chunks.forM (StoreSession.releaseReplaced X))
  | none => pure ()
  return m

/-- What sessions do to the store does not lead out of `I`. -/
structure Kept (X : Crates) (I : Store → Prop) : Prop where
  takeRef : ∀ id data, Keeps I (BlobStore.writeChunk X id data >>= Index.addChunkRef X id)
  releaseReplaced : ∀ id, Keeps I (StoreSession.releaseReplaced X id)
  putManifest : ∀ m, Keeps I (Index.putManifest X m)

namespace Kept

theorem of_steps (hwrite : ∀ id data, Keeps I (BlobStore.writeChunk X id data))
    (hdelete : ∀ id, Keeps I (BlobStore.deleteChunk id))
    (hadd : ∀ id path, Keeps I (Index.addChunkRef X id path))
    (hdrop : ∀ id, Keeps I (Index.decrementChunkRef X id))
    (hput : ∀ m, Keeps I (Index.putManifest X m)) : Kept X I where
  takeRef id data := Keeps.bind (hwrite id data) fun path => hadd id path
  releaseReplaced id := by
    refine Keeps.bind (hdrop id) fun last => ?_
    split_ifs
    · exact keeps_ignoreError (hdelete id)
    · exact Keeps.pure ()
  putManifest := hput

variable (K : Kept X I)
include K

theorem flushChunk : Keeps (OnStore I) (StoreSession.flushChunk X) := by
  refine Keeps.get_bind fun p => ?_
  dsimp only
  split_ifs
  · exact Keeps.pure ()
  · refine Keeps.bind (keeps_onSession _) fun _ => ?_
    rw [← bind_assoc, ← onStore_bind]
    exact Keeps.bind (keeps_onStore (K.takeRef _ _)) fun _ => keeps_onSession _

theorem writeLoop (n : Nat) (data : Bytes) :
    Keeps (OnStore I) (StoreSession.writeLoop X n data) :=
  keeps_writeLoop (fun _ => keeps_onSession _) K.flushChunk n data

theorem write (data : Bytes) : Keeps (OnStore I) (StoreSession.write X data) :=
  keeps_write (fun _ => keeps_onSession _) K.flushChunk data

theorem replace (previous : Option MediaManifest) (m : MediaManifest) :
    Keeps (OnStore I) (StoreSession.releasePrevious X previous m) := by
  cases previous with
  | none => exact Keeps.pure m
  | some old =>
    exact Keeps.bind (keeps_onStore (Keeps.forM K.releaseReplaced old.chunks)) fun _ =>
      Keeps.pure m

theorem finish : Keeps (OnStore I) (StoreSession.finish X) := by
  refine Keeps.bind K.flushChunk fun _ => Keeps.get_bind fun p => ?_
  refine Keeps.bind (keeps_onStore keeps_nowSecs) fun now => ?_
  refine Keeps.bind (keeps_onStore (keeps_getManifest _)) fun previous => ?_
  exact Keeps.bind (keeps_onStore (K.putManifest _)) fun _ => K.replace previous _

theorem abort : Keeps (OnStore I) (StoreSession.abort X) := by
  refine Keeps.get_bind fun p => Keeps.bind (keeps_onSession _) fun _ => ?_
  exact keeps_onStore (Keeps.forM (fun id => keeps_ignoreError (K.releaseReplaced id)) _)

theorem storeWithMetadata (engine : StorageEngine) (key : String) (data : Bytes)
    (contentType : String) (metadata : List (String × String)) :
    Keeps I (engine.storeWithMetadata X key data contentType metadata) :=
  Keeps.bind (keeps_beginStore engine key contentType metadata) fun _ =>
    keeps_withSession (Keeps.bind (K.write data) fun _ => K.finish)

end Kept

/-! ## The other calls -/

theorem keeps_releaseDeleted {id : ChunkId} (hdrop : Keeps I (Index.decrementChunkRef X id))
    (hdelete : Keeps I (BlobStore.deleteChunk id)) :
    Keeps I (StorageEngine.releaseDeleted X id) := by
  refine Keeps.bind hdrop fun last => ?_
  split_ifs
  · exact hdelete
  · exact Keeps.pure ()

/-- No call on the engine leads out of `I`. -/
structure CallsKept (X : Crates) (I : Store → Prop) : Prop extends Kept X I where
  releaseDeleted : ∀ id, Keeps I (StorageEngine.releaseDeleted X id)
  deleteManifest : ∀ key, Keeps I (Index.deleteManifest X key)
  gc : ∀ grace, Keeps I (StorageEngine.gc grace)
  compact : Keeps I (Index.compact X)

namespace CallsKept

variable (K : CallsKept X I)
include K

theorem delete (key : String) : Keeps I (StorageEngine.delete X key) := by
  refine Keeps.bind (keeps_getManifest key) fun found => ?_
  cases found with
  | none => exact Keeps.pure false
  | some m =>
    exact Keeps.bind (Keeps.forM K.releaseDeleted m.chunks) fun _ =>
      Keeps.bind (K.deleteManifest key) fun _ => Keeps.pure true

theorem rename (fromKey toKey : String) : Keeps I (StorageEngine.rename X fromKey toKey) := by
  refine Keeps.bind (keeps_check _) fun _ => ?_
  split_ifs
  · exact Keeps.throw_bind _
  · refine Keeps.bind (keeps_getManifest fromKey) fun found => ?_
    cases found with
    | none => exact Keeps.throw _
    | some manifest =>
      refine Keeps.bind (keeps_getManifest toKey) fun target => ?_
      split_ifs
      · exact Keeps.throw_bind _
      · refine Keeps.bind keeps_nowSecs fun now => ?_
        refine Keeps.bind (K.putManifest _) fun _ => ?_
        exact Keeps.bind (K.deleteManifest _) fun _ => Keeps.pure _

end CallsKept

end KaidaDB
