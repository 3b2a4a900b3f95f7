import KaidaDB.Crates.Reference
import KaidaDB.Storage.Proof.Refinement

/-!
# However the bytes arrive

The loop of `write` does with its data what it would do with one byte after the other
(`writeLoop_eq`), so writing two pieces is writing them together, also when something fails on the
way. `chunking_independent` is what follows for uploads: the split into calls of `write` makes no
difference to the manifest, the chunk files and the index.
-/

namespace KaidaDB

open Effects

variable {X : Crates}

/-! ## How a flush fails -/

theorem nextPlan_fails : FailsWith (· = ioError) nextPlan := FailsWith.modifyGet _

theorem writeLog_fails (b : Bytes) : FailsWith (· = ioError) (Index.writeLog b) :=
  FailsWith.modifyGet _

theorem appendEntry_fails (entry : LogEntry) (sync : Bool) :
    FailsWith (· = ioError) (Index.appendEntry X entry sync) := by
  refine FailsWith.bind nextPlan_fails fun plan => ?_
  dsimp only
  cases plan.append with
  | none => exact FailsWith.bind (writeLog_fails _) fun _ => FailsWith.modifyGet _
  | some fault =>
    cases fault with
    | write n =>
      exact FailsWith.bind (writeLog_fails _) fun _ =>
        FailsWith.bind (FailsWith.throw rfl) fun _ => FailsWith.modifyGet _
    | sync =>
      refine FailsWith.bind (writeLog_fails _) fun _ => FailsWith.get_bind fun s => ?_
      split_ifs
      · exact FailsWith.bind (FailsWith.throw rfl) fun _ => FailsWith.modifyGet _
      · exact FailsWith.modifyGet _

theorem addChunkRef_fails (chunkId : ChunkId) (path : String) :
    FailsWith (· = ioError) (Index.addChunkRef X chunkId path) :=
  FailsWith.bind (FailsWith.get_bind fun _ => FailsWith.pure _) fun _ =>
    FailsWith.bind (appendEntry_fails _ _) fun _ => FailsWith.modifyGet _

theorem writeChunk_fails (chunkId : ChunkId) (data : Bytes) :
    FailsWith (· = ioError) (BlobStore.writeChunk X chunkId data) := by
  refine FailsWith.get_bind fun s => FailsWith.bind (FailsWith.get_bind fun _ => FailsWith.pure _)
    fun found => ?_
  split_ifs
  · exact FailsWith.pure _
  · refine FailsWith.bind (FailsWith.bind nextPlan_fails fun plan => ?_) fun _ => FailsWith.pure _
    split_ifs
    · exact FailsWith.bind (FailsWith.throw rfl) fun _ => FailsWith.modifyGet _
    · exact FailsWith.bind (FailsWith.pure _) fun _ => FailsWith.modifyGet _

theorem decrementChunkRef_fails (chunkId : ChunkId) :
    FailsWith (· = ioError) (Index.decrementChunkRef X chunkId) := by
  refine FailsWith.bind (FailsWith.get_bind fun _ => FailsWith.pure _) fun found => ?_
  have hlogged : ∀ (e : LogEntry) (g : Store → Unit × Store) (b : Bool), FailsWith (· = ioError)
      ((Index.appendEntry X e false >>= fun _ => modifyGet g) >>= fun _ => pure b) := fun e g b =>
    FailsWith.bind (FailsWith.bind (appendEntry_fails _ _) fun _ => FailsWith.modifyGet _) fun _ =>
      FailsWith.pure _
  cases found with
  | none => exact FailsWith.pure _
  | some loc =>
    dsimp only
    split_ifs
    · exact hlogged _ _ _
    · exact hlogged _ _ _

theorem deleteChunk_fails (chunkId : ChunkId) :
    FailsWith (· = ioError) (BlobStore.deleteChunk chunkId) := by
  refine FailsWith.get_bind fun s => ?_
  split_ifs
  · refine FailsWith.bind nextPlan_fails fun plan => ?_
    split_ifs
    · exact FailsWith.bind (FailsWith.throw rfl) fun _ => FailsWith.modifyGet _
    · exact FailsWith.modifyGet _
  · exact FailsWith.pure _

theorem onStore_fails {α : Type} {P : Fail → Prop} {x : M α} (h : FailsWith P x) :
    FailsWith P (onStore x) := by
  intro p e q he
  rw [onStore] at he
  cases hr : x p.2 with
  | ok a s =>
    rw [hr] at he
    cases he
  | error e' s =>
    rw [hr] at he
    cases he
    exact h _ _ _ hr

theorem flushChunk_fails : FailsWith (· = ioError) (StoreSession.flushChunk X) := by
  refine FailsWith.get_bind fun p => ?_
  dsimp only
  split_ifs
  · exact FailsWith.pure _
  · exact FailsWith.bind (FailsWith.modifyGet _) fun _ =>
      FailsWith.bind (onStore_fails (writeChunk_fails _ _)) fun path =>
        FailsWith.bind (onStore_fails (addChunkRef_fails _ _)) fun _ => FailsWith.modifyGet _

theorem onStore_ok {α : Type} {x : M α} {p q : StoreSession × Store} {a : α}
    (h : onStore x p = .ok a q) : q.1 = p.1 := by
  rw [onStore] at h
  cases hr : x p.2 with
  | ok b s =>
    rw [hr] at h
    cases h
    rfl
  | error e s =>
    rw [hr] at h
    cases h

/-- What a flush leaves of the session. -/
theorem flushChunk_session {t : StoreSession} {s : Store} {p : StoreSession × Store}
    (h : StoreSession.flushChunk X (t, s) = .ok () p) :
    p.1 = if t.buf = [] then t else t.flushed X := by
  rw [StoreSession.flushChunk, run_bind, run_get] at h
  by_cases hbuf : t.buf = []
  · simp only [if_pos hbuf] at h ⊢
    cases h
    rfl
  · simp only [if_neg hbuf] at h ⊢
    obtain ⟨_, p1, h1, h⟩ := ok_of_bind h
    obtain ⟨path, p2, h2, h⟩ := ok_of_bind h
    obtain ⟨_, p3, h3, h4⟩ := ok_of_bind h
    cases h1
    cases h4
    show (p3.1.addChunk _ _) = _
    rw [onStore_ok h3, onStore_ok h2]
    rfl

/-! ## One byte after the other -/

/-- The loop of `write` with a single byte. -/
def StoreSession.putByte (X : Crates) (b : UInt8) : SM Unit := do
  onSession fun s => { s with buf := s.buf ++ [b] }
  if (← get).1.chunkSize ≤ (← get).1.buf.length then
    StoreSession.flushChunk X

def StoreSession.putBytes (X : Crates) : Bytes → SM Unit
  | [] => pure ()
  | b :: rest => do
    StoreSession.putByte X b
    StoreSession.putBytes X rest

theorem putBytes_append (a b : Bytes) : StoreSession.putBytes X (a ++ b)
    = StoreSession.putBytes X a >>= fun _ => StoreSession.putBytes X b := by
  funext p
  induction a generalizing p with
  | nil => rfl
  | cons x a ih =>
    show (StoreSession.putByte X x >>= fun _ => StoreSession.putBytes X (a ++ b)) p
      = ((StoreSession.putByte X x >>= fun _ => StoreSession.putBytes X a) >>= fun _ =>
        StoreSession.putBytes X b) p
    rw [run_bind, run_bind, run_bind]
    cases StoreSession.putByte X x p with
    | ok u q => exact ih q
    | error e q => rfl

/-- There is room for a byte, which every flush makes sure of. -/
def StoreSession.HasRoom (t : StoreSession) : Prop := t.buf.length < t.chunkSize

section
variable {t : StoreSession} {s : Store}

theorem putByte_room {b : UInt8} (h : t.buf.length + 1 < t.chunkSize) :
    StoreSession.putByte X b (t, s) = .ok () ({ t with buf := t.buf ++ [b] }, s) := by
  show (if t.chunkSize ≤ (t.buf ++ [b]).length then StoreSession.flushChunk X else pure ())
    ({ t with buf := t.buf ++ [b] }, s) = _
  rw [if_neg (by rw [List.length_append, List.length_singleton]; omega)]
  rfl

theorem putByte_full {b : UInt8} (h : t.buf.length + 1 = t.chunkSize) :
    StoreSession.putByte X b (t, s)
      = StoreSession.flushChunk X ({ t with buf := t.buf ++ [b] }, s) := by
  show (if t.chunkSize ≤ (t.buf ++ [b]).length then StoreSession.flushChunk X else pure ())
    ({ t with buf := t.buf ++ [b] }, s) = _
  rw [if_pos (by rw [List.length_append, List.length_singleton]; omega)]

/-- Bytes that do not fill the buffer. -/
theorem putBytes_room {a : Bytes} (h : t.buf.length + a.length < t.chunkSize) :
    StoreSession.putBytes X a (t, s) = .ok () ({ t with buf := t.buf ++ a }, s) := by
  induction a generalizing t with
  | nil => rw [List.append_nil]; rfl
  | cons b a ih =>
    rw [List.length_cons] at h
    rw [StoreSession.putBytes, run_bind, putByte_room (by omega)]
    dsimp only
    rw [ih (by simp only [List.length_append, List.length_singleton]; omega)]
    simp only [List.append_assoc, List.singleton_append]

/-- Bytes that fill the buffer exactly. -/
theorem putBytes_full {a : Bytes} (hne : a ≠ []) (h : t.buf.length + a.length = t.chunkSize) :
    StoreSession.putBytes X a (t, s)
      = StoreSession.flushChunk X ({ t with buf := t.buf ++ a }, s) := by
  induction a generalizing t with
  | nil => exact absurd rfl hne
  | cons b a ih =>
    rw [List.length_cons] at h
    rw [StoreSession.putBytes, run_bind]
    by_cases ha : a = []
    · subst ha
      rw [putByte_full (by simpa using h)]
      cases StoreSession.flushChunk X ({ t with buf := t.buf ++ [b] }, s) <;> rfl
    · have hpos := List.length_pos_iff.2 ha
      rw [putByte_room (by omega)]
      dsimp only
      rw [ih ha (by simp only [List.length_append, List.length_singleton]; omega)]
      simp only [List.append_assoc, List.singleton_append]

/-- A byte that is put without an error. -/
theorem putByte_ok {b : UInt8} {p : StoreSession × Store} (hroom : t.HasRoom)
    (h : StoreSession.putByte X b (t, s) = .ok () p) :
    p.1.HasRoom ∧ p.1.bytesWritten = t.bytesWritten + 1 ∧ p.1.maxObjectSize = t.maxObjectSize := by
  unfold StoreSession.HasRoom at *
  unfold StoreSession.bytesWritten
  obtain hlt | hfull := Nat.lt_or_eq_of_le (Nat.succ_le_of_lt hroom)
  · rw [putByte_room hlt] at h
    cases h
    simp only [List.length_append, List.length_singleton]
    exact ⟨hlt, by omega, trivial⟩
  · rw [putByte_full hfull] at h
    rw [flushChunk_session h, if_neg (by simp)]
    simp only [StoreSession.flushed, List.length_append, List.length_singleton, List.length_nil]
    exact ⟨by omega, by omega, trivial⟩

theorem putBytes_ok {a : Bytes} {p : StoreSession × Store} (hroom : t.HasRoom)
    (h : StoreSession.putBytes X a (t, s) = .ok () p) :
    p.1.HasRoom ∧ p.1.bytesWritten = t.bytesWritten + a.length ∧
      p.1.maxObjectSize = t.maxObjectSize := by
  induction a generalizing t s with
  | nil =>
    cases h
    exact ⟨hroom, rfl, rfl⟩
  | cons b a ih =>
    rw [StoreSession.putBytes] at h
    obtain ⟨_, ⟨t1, st1⟩, h1, h2⟩ := ok_of_bind h
    obtain ⟨hroom1, hwritten1, hmax1⟩ := putByte_ok hroom h1
    obtain ⟨hroom2, hwritten2, hmax2⟩ := ih hroom1 h2
    exact ⟨hroom2, by rw [hwritten2, hwritten1, List.length_cons]; omega, hmax2.trans hmax1⟩

theorem putByte_fails (b : UInt8) : FailsWith (· = ioError) (StoreSession.putByte X b) := by
  refine FailsWith.bind (FailsWith.modifyGet _) fun _ =>
    FailsWith.get_bind fun _ => FailsWith.get_bind fun _ => ?_
  split_ifs
  · exact flushChunk_fails
  · exact FailsWith.pure _

/-- **The loop of `write` puts one byte after the other**, and takes no more iterations than that. -/
theorem writeLoop_eq {n : Nat} {data : Bytes} (hn : data.length ≤ n) (hroom : t.HasRoom) :
    StoreSession.writeLoop X n data (t, s) = StoreSession.putBytes X data (t, s) := by
  induction n generalizing data t s with
  | zero =>
    obtain rfl := List.eq_nil_of_length_eq_zero (Nat.le_zero.1 hn)
    rfl
  | succ n ih =>
    unfold StoreSession.HasRoom at hroom
    by_cases h0 : data = []
    · subst h0
      rfl
    · have hpos := List.length_pos_iff.2 h0
      obtain ⟨k, hk⟩ : ∃ k, k = min (t.chunkSize - t.buf.length) data.length := ⟨_, rfl⟩
      have htake : (data.take k).length = k := List.length_take_of_le (by omega)
      have hdrop : (data.drop k).length ≤ n := by rw [List.length_drop]; omega
      have hstep : StoreSession.writeLoop X (n + 1) data (t, s)
          = (if t.chunkSize ≤ (t.buf ++ data.take k).length then
              StoreSession.flushChunk X >>= fun _ => StoreSession.writeLoop X n (data.drop k)
            else StoreSession.writeLoop X n (data.drop k)) ({ t with buf := t.buf ++ data.take k }, s) := by
        rw [StoreSession.writeLoop, if_neg h0, hk]
        rfl
      have hsplit : StoreSession.putBytes X data (t, s)
          = (StoreSession.putBytes X (data.take k) >>= fun _ =>
            StoreSession.putBytes X (data.drop k)) (t, s) := by
        rw [← putBytes_append, List.take_append_drop]
      rw [hstep, hsplit, run_bind]
      by_cases hfull : t.buf.length + k = t.chunkSize
      · rw [if_pos (by rw [List.length_append, htake]; omega), run_bind,
          putBytes_full (by rw [← List.length_pos_iff, htake]; omega) (by rw [htake]; exact hfull)]
        cases hflush : StoreSession.flushChunk X ({ t with buf := t.buf ++ data.take k }, s) with
        | error e p => rfl
        | ok u p =>
          have hne : t.buf ++ data.take k ≠ [] := by
            rw [← List.length_pos_iff, List.length_append, htake]
            omega
          have hp := flushChunk_session hflush
          rw [if_neg hne] at hp
          refine ih (s := p.2) hdrop ?_
          rw [StoreSession.HasRoom, hp]
          show 0 < t.chunkSize
          omega
      · rw [if_neg (by rw [List.length_append, htake]; omega), putBytes_room (by rw [htake]; omega)]
        refine ih hdrop ?_
        show (t.buf ++ data.take k).length < t.chunkSize
        rw [List.length_append, htake]
        omega

end

theorem putBytes_fails (a : Bytes) : FailsWith (· = ioError) (StoreSession.putBytes X a) := by
  induction a with
  | nil => exact FailsWith.pure _
  | cons b a ih => exact FailsWith.bind (putByte_fails b) fun _ => ih

/-! ## Calls of `write` -/

/-- The calls of `write` on a session. -/
def StoreSession.writeAll (X : Crates) : List Bytes → SM Unit
  | [] => pure ()
  | data :: rest => do
    StoreSession.write X data
    StoreSession.writeAll X rest

/-- As many bytes more are within the limit. -/
def StoreSession.Fits (t : StoreSession) (n : Nat) : Prop :=
  t.maxObjectSize = 0 ∨ t.bytesWritten + n ≤ t.maxObjectSize

theorem writeLoop_fails (n : Nat) (data : Bytes) :
    FailsWith (fun e => e = ioError ∨ e = .diverges) (StoreSession.writeLoop X n data) := by
  induction n generalizing data with
  | zero =>
    rw [StoreSession.writeLoop]
    split_ifs
    · exact FailsWith.pure _
    · exact FailsWith.throw (.inr rfl)
  | succ n ih =>
    rw [StoreSession.writeLoop]
    split_ifs
    · exact FailsWith.pure _
    · refine FailsWith.get_bind fun _ => FailsWith.bind (FailsWith.modifyGet _) fun _ =>
        FailsWith.get_bind fun _ => ?_
      split_ifs
      · exact FailsWith.bind (fun _ _ _ h => .inl (flushChunk_fails _ _ _ h)) fun _ => ih _
      · exact ih _

section
variable {t : StoreSession} {s : Store}

theorem write_eq {data : Bytes} (hroom : t.HasRoom) (hfits : t.Fits data.length) :
    StoreSession.write X data (t, s) = StoreSession.putBytes X data (t, s) := by
  rw [← writeLoop_eq (Nat.le_refl _) hroom, StoreSession.write, run_bind, run_get]
  dsimp only
  rw [if_neg (by unfold StoreSession.Fits at hfits; omega)]

theorem write_tooLarge {data : Bytes} (hbig : ¬ t.Fits data.length) :
    StoreSession.write X data (t, s) = .error (.error (.tooLarge
      s!"object exceeds max_object_size of {t.maxObjectSize} bytes")) (t, s) := by
  rw [StoreSession.write, run_bind, run_get]
  dsimp only
  rw [if_pos (by unfold StoreSession.Fits at hbig; omega)]
  rfl

/-- A write that is rejected as too large changes nothing. -/
theorem write_rejected {data : Bytes} {msg : String} {p : StoreSession × Store}
    (h : StoreSession.write X data (t, s) = .error (.error (.tooLarge msg)) p) : p = (t, s) := by
  by_cases hfits : t.Fits data.length
  · rw [StoreSession.write, run_bind, run_get] at h
    dsimp only at h
    rw [if_neg (by unfold StoreSession.Fits at hfits; omega)] at h
    rcases writeLoop_fails _ _ _ _ _ h with he | he
    · cases he
    · cases he
  · rw [write_tooLarge hfits] at h
    cases h
    rfl

/-- Writes within the limit are one write. -/
theorem writeAll_eq {writes : List Bytes} (hroom : t.HasRoom) (hfits : t.Fits writes.flatten.length) :
    StoreSession.writeAll X writes (t, s) = StoreSession.putBytes X writes.flatten (t, s) := by
  induction writes generalizing t s with
  | nil => rfl
  | cons data rest ih =>
    unfold StoreSession.Fits at hfits
    rw [List.flatten_cons, List.length_append] at hfits
    rw [List.flatten_cons, putBytes_append, StoreSession.writeAll, run_bind, run_bind,
      write_eq hroom (by unfold StoreSession.Fits; omega)]
    cases hput : StoreSession.putBytes X data (t, s) with
    | error e p => rfl
    | ok u p =>
      obtain ⟨hroom', hwritten, hmax⟩ := putBytes_ok hroom hput
      refine ih (s := p.2) hroom' ?_
      unfold StoreSession.Fits
      omega

/-- Writes beyond the limit are one write of what is within it, and a refusal. -/
theorem writeAll_cut {writes : List Bytes} (hroom : t.HasRoom) (hwithin : t.Fits 0)
    (hbig : ¬ t.Fits writes.flatten.length) :
    ∃ b, b <+: writes.flatten ∧ StoreSession.writeAll X writes (t, s)
      = (StoreSession.putBytes X b >>= fun _ => throw (.error (.tooLarge
        s!"object exceeds max_object_size of {t.maxObjectSize} bytes"))) (t, s) := by
  induction writes generalizing t s with
  | nil => exact absurd hwithin hbig
  | cons data rest ih =>
    unfold StoreSession.Fits at hbig
    rw [List.flatten_cons, List.length_append] at hbig
    rw [StoreSession.writeAll, run_bind, List.flatten_cons]
    by_cases hfits : t.Fits data.length
    · rw [write_eq hroom hfits]
      cases hput : StoreSession.putBytes X data (t, s) with
      | error e p =>
        refine ⟨data, List.prefix_append _ _, ?_⟩
        rw [run_bind, hput]
      | ok u p =>
        obtain ⟨hroom', hwritten, hmax⟩ := putBytes_ok hroom hput
        unfold StoreSession.Fits at hfits
        obtain ⟨b, hb, hrun⟩ := ih (t := p.1) (s := p.2) hroom'
          (by unfold StoreSession.Fits; omega) (by unfold StoreSession.Fits; omega)
        refine ⟨data ++ b, (List.prefix_append_right_inj data).2 hb, ?_⟩
        rw [hmax] at hrun
        rw [putBytes_append, bind_assoc, run_bind, hput]
        exact hrun
    · refine ⟨[], List.nil_prefix, ?_⟩
      rw [write_tooLarge hfits]
      rfl

/-- Writes beyond the limit fail. -/
theorem writeAll_tooLarge {writes : List Bytes} (hroom : t.HasRoom) (hwithin : t.Fits 0)
    (hbig : ¬ t.Fits writes.flatten.length) :
    ∃ e p, StoreSession.writeAll X writes (t, s) = .error e p := by
  obtain ⟨b, -, hrun⟩ := writeAll_cut (X := X) (s := s) hroom hwithin hbig
  rw [hrun, run_bind]
  cases StoreSession.putBytes X b (t, s) with
  | ok u p => exact ⟨_, _, rfl⟩
  | error e p => exact ⟨e, p, rfl⟩

/-- Whatever the store does, the writes come to an end. -/
theorem writeAll_terminates {writes : List Bytes} (hroom : t.HasRoom) (p : StoreSession × Store) :
    StoreSession.writeAll X writes (t, s) ≠ .error .diverges p := by
  induction writes generalizing t s with
  | nil => exact fun h => by cases h
  | cons data rest ih =>
    rw [StoreSession.writeAll, run_bind]
    by_cases hfits : t.Fits data.length
    · rw [write_eq hroom hfits]
      cases hput : StoreSession.putBytes X data (t, s) with
      | error e q =>
        intro h
        cases h
        cases putBytes_fails _ _ _ _ hput
      | ok u q => exact ih (s := q.2) (putBytes_ok hroom hput).1
    · rw [write_tooLarge hfits]
      exact fun h => by cases h

end

/-! ## Uploads -/

/-- `store_with_metadata` with a split of the data. -/
def StorageEngine.storeInWrites (X : Crates) (engine : StorageEngine) (key : String)
    (writes : List Bytes) (contentType : String) (metadata : List (String × String)) :
    M MediaManifest := do
  let session ← engine.beginStore key contentType metadata
  withSession session do
    StoreSession.writeAll X writes
    StoreSession.finish X

theorem beginStore_ok {engine : StorageEngine} {key contentType : String}
    {metadata : List (String × String)} {st st' : Store} {t : StoreSession}
    (h : engine.beginStore key contentType metadata st = .ok t st') :
    t = engine.newSession key contentType metadata ∧ st' = st ∧
      Spec.mayBegin engine key = .ok () := by
  rw [beginStore_eq] at h
  cases hb : Spec.mayBegin engine key with
  | error e =>
    rw [hb] at h
    cases h
  | ok u =>
    rw [hb] at h
    cases h
    exact ⟨rfl, rfl, rfl⟩

theorem newSession_fits {engine : StorageEngine} {key contentType : String}
    {metadata : List (String × String)} {k : Nat} :
    (engine.newSession key contentType metadata).Fits k
      ↔ engine.maxObjectSize = 0 ∨ k ≤ engine.maxObjectSize := by
  simp [StoreSession.Fits, StoreSession.bytesWritten, StorageEngine.newSession]

/-- From any store, and whatever goes wrong there, the split makes no difference. -/
theorem storeInWrites_eq {engine : StorageEngine} (hsize : 0 < engine.chunkSize) {writes : List Bytes}
    (hfits : engine.maxObjectSize = 0 ∨ writes.flatten.length ≤ engine.maxObjectSize)
    (key contentType : String) (metadata : List (String × String)) (st : Store) :
    engine.storeInWrites X key writes contentType metadata st
      = engine.storeWithMetadata X key writes.flatten contentType metadata st := by
  rw [StorageEngine.storeInWrites, StorageEngine.storeWithMetadata, run_bind, run_bind]
  cases hbegin : engine.beginStore key contentType metadata st with
  | error e st' => rfl
  | ok t st' =>
    obtain ⟨rfl, -, -⟩ := beginStore_ok hbegin
    have hroom : (engine.newSession key contentType metadata).HasRoom := hsize
    have hfits' : (engine.newSession key contentType metadata).Fits writes.flatten.length :=
      newSession_fits.2 hfits
    dsimp only
    rw [withSession, withSession, run_bind, run_bind, writeAll_eq hroom hfits', write_eq hroom hfits']

/-- **Chunking does not depend on how the bytes arrive.** Whatever the calls of `write`, they come to an
end, all of them succeed exactly if the object is within the limit, and then the upload is the same as
that of all bytes at once: its chunks are those of the object cut into pieces of the chunk size. -/
theorem chunking_independent (hX : X.Lawful) (w : World) (hw : w.Reachable X)
    (key contentType : String) (metadata : List (String × String)) (t : StoreSession) (st : Store)
    (hbegin : w.engine.beginStore key contentType metadata w.store = .ok t st) (writes : List Bytes) :
    let d := writes.flatten
    (∀ p, StoreSession.writeAll X writes (t, st) ≠ .error .diverges p) ∧
    ((∃ p, StoreSession.writeAll X writes (t, st) = .ok () p) ↔
      w.engine.maxObjectSize = 0 ∨ d.length ≤ w.engine.maxObjectSize) ∧
    (w.engine.maxObjectSize = 0 ∨ d.length ≤ w.engine.maxObjectSize →
      ∃ m s', w.engine.storeInWrites X key writes contentType metadata w.store = .ok m s' ∧
        w.engine.storeWithMetadata X key d contentType metadata w.store = .ok m s' ∧
        (∃ pieces : List Bytes, pieces.flatten = d ∧ m.chunks = pieces.map (ChunkId.fromData X) ∧
          (∀ p ∈ pieces, 1 ≤ p.length ∧ p.length ≤ w.engine.chunkSize) ∧
          ∀ p ∈ pieces.dropLast, p.length = w.engine.chunkSize) ∧
        m.totalSize = d.length ∧
        m.checksum = String.ofList (hexEncode (X.sha256 d).toList)) ∧
    (∀ t' st' data msg p,
      StoreSession.write X data (t', st') = .error (.error (.tooLarge msg)) p → p = (t', st')) := by
  intro d
  obtain ⟨spec, h⟩ := hw.sim hX
  obtain ⟨rfl, rfl, hb⟩ := beginStore_ok hbegin
  have hroom : (w.engine.newSession key contentType metadata).HasRoom := h.sized
  have hfits : (w.engine.newSession key contentType metadata).Fits d.length ↔
      w.engine.maxObjectSize = 0 ∨ d.length ≤ w.engine.maxObjectSize := newSession_fits
  refine ⟨writeAll_terminates hroom, ⟨fun hok => ?_, fun hle => ?_⟩, fun hle => ?_,
    fun t' st' data msg p => write_rejected⟩
  · by_contra hbig
    obtain ⟨e, p, herr⟩ := writeAll_tooLarge (X := X) (s := w.store) hroom
      (.inr (by simp [StoreSession.bytesWritten, StorageEngine.newSession])) (mt hfits.1 hbig)
    obtain ⟨q, hq⟩ := hok
    cases herr.symm.trans hq
  · have hsound : Sound X Set.univ w.store.view fun a => needOf w.sessions a +
        (w.engine.newSession key contentType metadata).holds a :=
      h.sound.weaken fun a => by simp [StoreSession.holds, StorageEngine.newSession]
    obtain ⟨-, hrec⟩ : Does (lens X true) _ w.store.view _ _ ∧ _ :=
      does_beginStore h contentType metadata hb
    obtain ⟨t', c', hloop, -⟩ : ∃ t' c', Does (sessionLens X true) _ _ _ (t', c') ∧ _ :=
      does_writeLoop d.length (Nat.le_refl _) h.calm hsound hrec fun p _ => Set.mem_univ p
    obtain ⟨p, hp, -⟩ := hloop (w.engine.newSession key contentType metadata, w.store) h.healthy rfl
    rw [writeLoop_eq (Nat.le_refl _) hroom, ← writeAll_eq hroom (hfits.2 hle)] at hp
    exact ⟨p, hp⟩
  · obtain ⟨t', now, c', hstore, hset, -, -, hd, -⟩ := h.does_store key d contentType metadata hb
      (fun hbig => by
        have := hbig.2
        simp only [List.length_nil] at this
        omega)
      fun p _ => Set.mem_univ p
    obtain ⟨s', hrun, -⟩ := hstore w.store h.healthy rfl
    have hcs : t'.chunkSize = w.engine.chunkSize := congrArg Prod.fst hset
    have hlengths := Slices.length_slices h.sized d
    refine ⟨_, s', ?_, hrun, ⟨_, Slices.flatten_slices h.sized d, ?_, hlengths⟩, hd.total, hd.checksum⟩
    · rw [storeInWrites_eq h.sized hle]
      exact hrun
    · rw [hd.chunks, ← hcs]
      rfl

/-- Five bytes for an engine with chunks of two. -/
theorem chunking_independent_five :
    let w := World.fresh ⟨2, 6, false⟩ "data" (Stream'.const .ok)
    ∃ t st, w.engine.beginStore "a" "" [] w.store = .ok t st ∧
      let d := ([[1], [], [2, 3, 4], [5]] : List Bytes).flatten
      (∀ p, StoreSession.writeAll .reference [[1], [], [2, 3, 4], [5]] (t, st) ≠ .error .diverges p) ∧
      ((∃ p, StoreSession.writeAll .reference [[1], [], [2, 3, 4], [5]] (t, st) = .ok () p) ↔
        w.engine.maxObjectSize = 0 ∨ d.length ≤ w.engine.maxObjectSize) ∧
      (w.engine.maxObjectSize = 0 ∨ d.length ≤ w.engine.maxObjectSize →
        ∃ m s', w.engine.storeInWrites .reference "a" [[1], [], [2, 3, 4], [5]] "" [] w.store = .ok m s' ∧
          w.engine.storeWithMetadata .reference "a" d "" [] w.store = .ok m s' ∧
          (∃ pieces : List Bytes, pieces.flatten = d ∧
            m.chunks = pieces.map (ChunkId.fromData .reference) ∧
            (∀ p ∈ pieces, 1 ≤ p.length ∧ p.length ≤ w.engine.chunkSize) ∧
            ∀ p ∈ pieces.dropLast, p.length = w.engine.chunkSize) ∧
          m.totalSize = d.length ∧
          m.checksum = String.ofList (hexEncode (Crates.reference.sha256 d).toList)) ∧
      (∀ t' st' data msg p, StoreSession.write .reference data (t', st')
        = .error (.error (.tooLarge msg)) p → p = (t', st')) :=
  ⟨_, _, rfl, chunking_independent Crates.reference_lawful _
    ⟨⟨2, 6, false⟩, "data", [], by decide, by simp, rfl⟩ "a" "" [] _ _ rfl [[1], [], [2, 3, 4], [5]]⟩

end KaidaDB
