import KaidaDB.Api.Proof.Upload
import KaidaDB.Api.UploadFaults
import KaidaDB.Storage.Proof.Counted
import KaidaDB.Storage.Proof.Flushes

/-!
# What a failed upload leaves behind

`UploadEnds` is how an upload may end whose operations all succeed but one; both ways to upload end
so (`storeWithMetadata_ends`, `uploadWorker_ends`). An upload that is too large is undone completely
(`rejected_upload_leaves_no_trace`), one that fails only where its session is aborted, or where
there is nothing to undo (`failed_upload_releases_iff`).
-/

namespace KaidaDB

open Effects

variable {X : Crates} {c : View}

/-! ## The loop of the worker -/

/-- What the worker does where a write fails. -/
def abortOn (X : Crates) : Fail → SM Unit
  | .error e => do
    StoreSession.abort X
    throw (.error e)
  | e => throw e

theorem ignoreError_never_fails {α : Type} {x : M α} (h : FailsWith (· = ioError) x) :
    FailsWith (fun _ => False) (ignoreError x) := by
  refine FailsWith.tryCatch (FailsWith.map _ h) fun e he => ?_
  subst he
  exact FailsWith.pure ()

theorem abort_never_fails : FailsWith (fun _ => False) (StoreSession.abort X) := by
  refine FailsWith.get_bind fun p => FailsWith.bind (FailsWith.modifyGet _) fun _ => ?_
  refine onStore_fails (FailsWith.forM (fun id => ignoreError_never_fails ?_) _)
  refine FailsWith.bind (decrementChunkRef_fails id) fun last => ?_
  split_ifs
  · exact fun s e s' h => (ignoreError_never_fails (deleteChunk_fails id) s e s' h).elim
  · exact FailsWith.pure ()

/-- The error is the one of the write. -/
theorem abortOn_error (e : Fail) (p : StoreSession × Store) : ∃ p', abortOn X e p = .error e p' := by
  cases e with
  | error e =>
    rw [abortOn, run_bind]
    cases habort : StoreSession.abort X p with
    | ok u q => exact ⟨q, rfl⟩
    | error e' q => exact (abort_never_fails p e' q habort).elim
  | panic message => exact ⟨p, rfl⟩
  | diverges => exact ⟨p, rfl⟩

/-- The loop makes all the writes, and aborts the session at the first that fails. -/
theorem uploadLoop_eq (frames : List Bytes) (p : StoreSession × Store) :
    uploadLoop X (frames.map some ++ [none]) p
      = tryCatch (StoreSession.writeAll X frames) (abortOn X) p := by
  induction frames generalizing p with
  | nil => rfl
  | cons frame frames ih =>
    have hloop : uploadLoop X ((frame :: frames).map some ++ [none]) p
        = (tryCatch (StoreSession.write X frame) (abortOn X) >>= fun _ =>
          uploadLoop X (frames.map some ++ [none])) p := rfl
    rw [hloop, run_bind, run_tryCatch, run_tryCatch, StoreSession.writeAll, run_bind]
    cases StoreSession.write X frame p with
    | ok u q =>
      dsimp only
      rw [ih, run_tryCatch]
    | error e q =>
      dsimp only
      obtain ⟨q', herr⟩ := abortOn_error (X := X) e q
      rw [herr]

/-! ## How uploads end -/

/-- How an upload ends that was begun in the view `c`, while one operation goes as `fault` says.
`released` tells whether it leaves no references where that operation makes it fail. -/
inductive UploadEnds (c : View) (fault : IoPlan) (tooLarge released : Prop) :
    Except Fail MediaManifest → View → Prop
  | committed (m : MediaManifest) (c' : View) (hfits : ¬ tooLarge) :
    UploadEnds c fault tooLarge released (.ok m) c'
  | rejected (msg : String) (c' : View) (hbig : tooLarge) (hc : fault = .ok → Tracked c [] c') :
    UploadEnds c fault tooLarge released (.error (.error (.tooLarge msg))) c'
  | failed (ids : List ChunkId) (c' : View) (hfault : fault ≠ .ok) (hc : Tracked c ids c')
    (hiff : ids = [] ↔ released) : UploadEnds c fault tooLarge released (.error ioError) c'

theorem withSession_result {α : Type} {x : SM α} {t : StoreSession} {st : Store}
    {r : Except Fail α} {p : StoreSession × Store} (h : x (t, st) = result r p) :
    withSession t x st = result r p.2 := by
  rw [withSession, h]
  cases r <;> rfl

theorem newSession_tooLarge {engine : StorageEngine} {key contentType : String}
    {metadata : List (String × String)} {k : Nat} :
    ¬ (engine.newSession key contentType metadata).Fits k
      ↔ engine.maxObjectSize ≠ 0 ∧ engine.maxObjectSize < k := by
  rw [newSession_fits]
  omega

section
variable {engine : StorageEngine} (hsize : 0 < engine.chunkSize)

include hsize in
theorem slices_ne_nil (d : Bytes) : ∀ p ∈ Slices.slices engine.chunkSize d, p ≠ [] := fun p hp => by
  have := ((Slices.length_slices hsize d).1 p hp).1
  exact List.length_pos_iff.1 this

include hsize in
theorem slices_eq_nil {d : Bytes} : Slices.slices engine.chunkSize d = [] ↔ d = [] := by
  refine ⟨fun h => ?_, fun h => by rw [h, Slices.slices_nil]⟩
  rw [← Slices.flatten_slices hsize d, h]
  rfl

variable {st : Store} (hatt : st.attached = true) {n : Nat} {fault : IoPlan}
  (hio : st.io = IoPlan.once n fault)

/-- A session on the store as it is. -/
theorem session_healthy {t : StoreSession} (hatt : st.attached = true) :
    (sessionLens X false).healthy (t, st) := ⟨hatt, fun h => by cases h⟩

include hsize hatt hio in
/-- **A caller of the engine.** Nobody aborts the session. -/
theorem storeWithMetadata_ends {key : String} (hb : Spec.mayBegin engine key = .ok ()) (d : Bytes)
    (contentType : String) (metadata : List (String × String))
    (hn : n ≤ flushOps X st.view.stored (Slices.slices engine.chunkSize d) ∨ fault = .ok) :
    ∃ r s', engine.storeWithMetadata X key d contentType metadata st = result r s' ∧
      UploadEnds st.view fault (engine.maxObjectSize ≠ 0 ∧ engine.maxObjectSize < d.length)
        (d = [] ∨ n < flushOps X st.view.stored ((Slices.slices engine.chunkSize d).take 1))
        r s'.view := by
  let t := engine.newSession key contentType metadata
  have hroom : t.HasRoom := hsize
  have hrun : engine.storeWithMetadata X key d contentType metadata st
      = withSession t (StoreSession.write X d >>= fun _ => StoreSession.finish X) st := by
    rw [StorageEngine.storeWithMetadata, run_bind, beginStore_eq, hb]
    rfl
  rw [hrun]
  by_cases hfits : t.Fits d.length
  · obtain ⟨r, t', c', hdoes, hends⟩ := does_pieces_commit (X := X) (t := t)
      (slices_ne_nil hsize d) rfl (Tracked.refl st.view) hio hn
    obtain ⟨⟨t1, s'⟩, hx, -, hv⟩ := hdoes (t, st) (session_healthy hatt) rfl
    obtain ⟨rfl, rfl⟩ := Prod.mk.inj hv
    have hwrite : (StoreSession.write X d >>= fun _ => StoreSession.finish X) (t, st)
        = (StoreSession.putBytes X d >>= fun _ => StoreSession.finish X) (t, st) := by
      rw [run_bind, run_bind, write_eq hroom hfits]
    have hx' := hwrite.trans ((putBytes_finish (t := t) hsize rfl).trans hx)
    refine ⟨r, s', withSession_result hx', ?_⟩
    rcases hends with ⟨m, rfl⟩ | ⟨rfl, hfault, -, hiff, htracked⟩
    · exact .committed m _ fun hbig => newSession_tooLarge.2 hbig hfits
    · refine .failed _ _ hfault htracked ?_
      rw [← slices_eq_nil hsize]
      exact hiff
  · have hx : (StoreSession.write X d >>= fun _ => StoreSession.finish X) (t, st)
        = result (.error (.error (.tooLarge
          s!"object exceeds max_object_size of {t.maxObjectSize} bytes"))) (t, st) := by
      rw [run_bind, write_tooLarge hfits]
      rfl
    exact ⟨_, st, withSession_result hx,
      .rejected _ _ (newSession_tooLarge.1 hfits) fun _ => Tracked.refl _⟩

/-! ### The worker -/

/-- Where a write fails, the worker returns its error. -/
theorem worker_error {frames : List Bytes} {t : StoreSession} {e : Fail} {p : StoreSession × Store}
    (hwrite : StoreSession.writeAll X frames (t, st) = .error e p) (k : Unit → SM MediaManifest) :
    ∃ q, (uploadLoop X (frames.map some ++ [none]) >>= k) (t, st) = .error e q := by
  obtain ⟨q, hq⟩ := abortOn_error (X := X) e p
  refine ⟨q, ?_⟩
  rw [run_bind, uploadLoop_eq, run_tryCatch, hwrite]
  dsimp only
  rw [hq]

/-- Nothing is left of the session if nothing else goes wrong. -/
theorem worker_aborts {frames : List Bytes} {t t1 : StoreSession} {s1 : Store} {e : KaidaDbError}
    (hwrite : StoreSession.writeAll X frames (t, st) = .error (.error e) (t1, s1))
    (hatt1 : s1.attached = true) (hcalm : s1.view.Calm)
    (htracked : Tracked c t1.referencedChunks s1.view) (k : Unit → SM MediaManifest) :
    ∃ q, (uploadLoop X (frames.map some ++ [none]) >>= k) (t, st) = .error (.error e) q ∧
      Tracked c [] q.2.view := by
  obtain ⟨t2, c2, habort, htracked2⟩ := does_abort_tracked (X := X) hcalm htracked
  obtain ⟨q, hq, -, hv⟩ := habort (t1, s1) (session_healthy hatt1) rfl
  refine ⟨q, ?_, ?_⟩
  · rw [run_bind, uploadLoop_eq, run_tryCatch, hwrite]
    dsimp only
    rw [abortOn, run_bind, hq]
    rfl
  · rw [show q.2.view = c2 from congrArg Prod.snd hv]
    exact htracked2

/-- The pieces that `write` flushes are guarded. -/
theorem wholes_guarded (stored : String → Bool) (d : Bytes)
    (h : n < flushOps X stored (Slices.wholes engine.chunkSize d)) :
    n < flushOps X stored ((Slices.slices engine.chunkSize d).take
      (max 1 (d.length / engine.chunkSize))) :=
  Nat.lt_of_lt_of_le h (flushOps_mono (List.take_prefix_take_left (Nat.le_max_right _ _)))

/-- What flushing pieces into a new session leads to. -/
inductive FlushEnds (c : View) (t : StoreSession) (stored : String → Bool) (ps : List Bytes) (n : Nat)
    (fault : IoPlan) : Except Fail Unit → StoreSession × Store → Prop
  | flushed (t' : StoreSession) (s' : Store) (n' : Nat) (fault' : IoPlan)
    (hatt : s'.attached = true) (hio : s'.io = IoPlan.once n' fault')
    (hbefore : flushOps X stored ps ≤ n → n' = n - flushOps X stored ps ∧ fault' = fault)
    (hpast : n < flushOps X stored ps → fault' = .ok) (hbuf : t'.buf = [])
    (hsize : t'.chunkSize = t.chunkSize)
    (hrefs : t'.referencedChunks = ps.map (ChunkId.fromData X))
    (hstored : s'.view.stored = storedAfter X stored ps)
    (hc : Tracked c t'.referencedChunks s'.view) :
    FlushEnds c t stored ps n fault (.ok ()) (t', s')
  | failed (t' : StoreSession) (s' : Store) (hatt : s'.attached = true) (hcalm : s'.view.Calm)
    (hlt : n < flushOps X stored ps) (hfault : fault ≠ .ok)
    (hc : Tracked c t'.referencedChunks s'.view) :
    FlushEnds c t stored ps n fault (.error ioError) (t', s')

include hatt hio in
theorem flushEach_ends {t : StoreSession} (ps : List Bytes) (hne : ∀ p ∈ ps, p ≠ [])
    (hbuf : t.buf = []) (hrefs : t.referencedChunks = []) :
    ∃ r p, StoreSession.flushEach X ps (t, st) = result r p ∧
      FlushEnds (X := X) st.view t st.view.stored ps n fault r p := by
  have htracked : Tracked st.view t.referencedChunks st.view := hrefs ▸ Tracked.refl st.view
  rcases attempts_flushEach (X := X) hne hbuf htracked n fault hio with
    ⟨u, ⟨t1, c1⟩, n1, fault1, hflush, ⟨hbuf1, hrefs1, hstored1, htracked1⟩, hafter⟩ |
    ⟨⟨t1, c1⟩, hflush, ⟨-, -, htracked1⟩, hcalm, hlt, hfault⟩
  · obtain ⟨⟨t', s'⟩, hx, hhealthy, hv⟩ := hflush (t, st) (session_healthy hatt) rfl
    obtain ⟨rfl, rfl⟩ := Prod.mk.inj hv
    refine ⟨_, _, hx, .flushed t' s' n1 fault1 hhealthy.1 hafter.plans hafter.before hafter.past hbuf1
      (flushEach_ok hbuf hx).2 ?_ hstored1 htracked1⟩
    rw [hrefs, List.nil_append] at hrefs1
    exact hrefs1
  · obtain ⟨⟨t', s'⟩, hx, hhealthy, hv⟩ := hflush (t, st) (session_healthy hatt) rfl
    obtain ⟨rfl, rfl⟩ := Prod.mk.inj hv
    exact ⟨_, _, hx, .failed t' s' hhealthy.1 hcalm hlt hfault htracked1⟩

include hsize in
/-- The whole pieces were flushed, and the flush of the remainder `r` or the commit has failed: the
session is left without references exactly if that was guarded or there was nothing to flush. -/
theorem rest_released {d : Bytes} {ids : List ChunkId} {stored : String → Bool}
    (hle : flushOps X stored (Slices.wholes engine.chunkSize d) ≤ n)
    (hkept : (Slices.wholes engine.chunkSize d).map (ChunkId.fromData X) <+: ids)
    (hiff : ids = (Slices.wholes engine.chunkSize d).map (ChunkId.fromData X) ↔
      Slices.slices engine.chunkSize (Slices.remainder engine.chunkSize d) = [] ∨
        n - flushOps X stored (Slices.wholes engine.chunkSize d)
          < flushOps X (storedAfter X stored (Slices.wholes engine.chunkSize d))
            ((Slices.slices engine.chunkSize (Slices.remainder engine.chunkSize d)).take 1)) :
    ids = [] ↔ d = [] ∨ n < flushOps X stored ((Slices.slices engine.chunkSize d).take
      (max 1 (d.length / engine.chunkSize))) := by
  by_cases hshort : d.length < engine.chunkSize
  · -- nothing was flushed before the remainder
    rw [Slices.wholes_short hshort, Slices.remainder_short hshort, slices_eq_nil hsize] at hiff
    rw [Nat.div_eq_of_lt hshort]
    exact hiff
  · -- a whole piece was, and nobody drops its reference
    have hlong : engine.chunkSize ≤ d.length := Nat.not_lt.1 hshort
    have hq : 1 ≤ d.length / engine.chunkSize := Nat.div_pos hlong hsize
    refine iff_of_false (fun hnil => ?_) ?_
    · rw [hnil, Slices.wholes_step hsize hlong] at hkept
      cases List.prefix_nil.1 hkept
    · rintro (hnil | hlt)
      · rw [hnil, List.length_nil] at hlong
        omega
      · rw [Nat.max_eq_right hq] at hlt
        exact Nat.not_lt.2 hle hlt

section
variable {job : Upload.Job}

/-- The session of a job. -/
def Upload.Job.session (job : Upload.Job) (engine : StorageEngine) : StoreSession :=
  engine.newSession job.key job.contentType job.metadata

include hsize hatt hio in
/-- The writes of the worker are within the limit. -/
theorem worker_within (hfits : (job.session engine).Fits job.frames.flatten.length)
    (hn : n ≤ flushOps X st.view.stored
      (Slices.slices engine.chunkSize job.frames.flatten) ∨ fault = .ok) :
    ∃ r p, (uploadLoop X (job.frames.map some ++ [none]) >>= fun _ => StoreSession.finish X)
        (job.session engine, st) = result r p ∧
      UploadEnds st.view fault (job.TooLarge engine)
        (job.frames.flatten = [] ∨ n < flushOps X st.view.stored
          ((Slices.slices engine.chunkSize job.frames.flatten).take
            (max 1 (job.frames.flatten.length / engine.chunkSize))))
        r p.2.view := by
  have hroom : (job.session engine).HasRoom := hsize
  have hsmall : ¬ job.TooLarge engine := fun hbig => newSession_tooLarge.2 hbig hfits
  generalize hd : job.frames.flatten = d at hfits hn ⊢
  have hwrite : StoreSession.writeAll X job.frames (job.session engine, st)
      = (StoreSession.flushEach X (Slices.wholes engine.chunkSize d) >>= fun _ =>
        onSession fun s => { s with buf := Slices.remainder engine.chunkSize d })
          (job.session engine, st) := by
    rw [writeAll_eq hroom (hd ▸ hfits), hd]
    exact putBytes_wholes hsize rfl
  obtain ⟨r, p, hflush, hends⟩ := flushEach_ends (X := X) hatt hio (t := job.session engine)
    (Slices.wholes engine.chunkSize d)
    (fun p hp => slices_ne_nil hsize d p (List.mem_of_mem_take hp)) rfl rfl
  cases hends with
  | failed t1 s1 hatt1 hcalm hlt hfault htracked =>
    have herr : StoreSession.writeAll X job.frames (job.session engine, st)
        = .error ioError (t1, s1) := by
      rw [hwrite, run_bind, hflush]
      rfl
    obtain ⟨q, hq, htracked2⟩ := worker_aborts herr hatt1 hcalm htracked fun _ => StoreSession.finish X
    exact ⟨.error ioError, q, hq, .failed [] _ hfault htracked2
      (iff_of_true rfl (.inr (wholes_guarded _ d hlt)))⟩
  | flushed t1 s1 n1 fault1 hatt1 hio1 hbefore hpast hbuf1 hsize1 hrefs1 hstored1 htracked1 =>
    let r := Slices.remainder engine.chunkSize d
    have hr : r.length < engine.chunkSize := Slices.length_remainder hsize d
    have hok : StoreSession.writeAll X job.frames (job.session engine, st)
        = .ok () ({ t1 with buf := r }, s1) := by
      rw [hwrite, run_bind, hflush]
      rfl
    have hloop : (uploadLoop X (job.frames.map some ++ [none]) >>= fun _ =>
        StoreSession.finish X) (job.session engine, st) = (StoreSession.flushEach X
          (Slices.slices engine.chunkSize r) >>= fun _ => StoreSession.commit X) (t1, s1) := by
      rw [run_bind, uploadLoop_eq, run_tryCatch, hok]
      dsimp only
      rw [finish_pieces hbuf1 (by rw [hsize1]; exact hr), hsize1]
      rfl
    have hn1 : n1 ≤ flushOps X s1.view.stored (Slices.slices engine.chunkSize r) ∨ fault1 = .ok := by
      by_cases hk : flushOps X st.view.stored (Slices.wholes engine.chunkSize d) ≤ n
      · obtain ⟨rfl, rfl⟩ := hbefore hk
        refine hn.imp (fun hn => ?_) id
        rw [Slices.slices_eq hsize d, flushOps_append, ← hstored1] at hn
        exact Nat.sub_le_iff_le_add'.2 hn
      · exact .inr (hpast (by omega))
    obtain ⟨r2, t2, c2, hdoes, hends2⟩ := does_pieces_commit (X := X) (slices_ne_nil hsize r) hbuf1
      htracked1 hio1 hn1
    obtain ⟨p, hx, -, hv⟩ := hdoes (t1, s1) (session_healthy hatt1) rfl
    obtain ⟨rfl, rfl⟩ := Prod.mk.inj hv
    refine ⟨r2, p, hloop.trans hx, ?_⟩
    rcases hends2 with ⟨m, rfl⟩ | ⟨rfl, hfault1, hkept, hiff, htracked2⟩
    · exact .committed m _ hsmall
    · have hle : flushOps X st.view.stored (Slices.wholes engine.chunkSize d) ≤ n :=
        Nat.not_lt.1 fun hlt => hfault1 (hpast hlt)
      obtain ⟨rfl, rfl⟩ := hbefore hle
      rw [hrefs1, hstored1] at hiff
      exact .failed _ _ hfault1 htracked2 (rest_released hsize hle (hrefs1 ▸ hkept) hiff)

include hsize hatt hio in
/-- They are not: those up to the limit are like those of an object that fits. -/
theorem worker_beyond (hbig : ¬ (job.session engine).Fits job.frames.flatten.length)
    (released : Prop) (hreleased : n < flushOps X st.view.stored
      ((Slices.slices engine.chunkSize job.frames.flatten).take
        (max 1 (job.frames.flatten.length / engine.chunkSize))) → released) :
    ∃ r p, (uploadLoop X (job.frames.map some ++ [none]) >>= fun _ => StoreSession.finish X)
        (job.session engine, st) = result r p ∧
      UploadEnds st.view fault (job.TooLarge engine) released r p.2.view := by
  have hroom : (job.session engine).HasRoom := hsize
  have htooLarge : job.TooLarge engine := newSession_tooLarge.1 hbig
  obtain ⟨b, hb, hwrite⟩ := writeAll_cut (X := X) (s := st) hroom
    (newSession_fits.2 (.inr (Nat.zero_le _))) hbig
  have hflushed : StoreSession.putBytes X b (job.session engine, st)
      = (StoreSession.flushEach X (Slices.wholes engine.chunkSize b) >>= fun _ =>
        onSession fun s => { s with buf := Slices.remainder engine.chunkSize b })
          (job.session engine, st) := putBytes_wholes hsize rfl
  rw [run_bind, hflushed, run_bind] at hwrite
  obtain ⟨r, p, hflush, hends⟩ := flushEach_ends (X := X) hatt hio (t := job.session engine)
    (Slices.wholes engine.chunkSize b)
    (fun p hp => slices_ne_nil hsize b p (List.mem_of_mem_take hp)) rfl rfl
  rw [hflush] at hwrite
  cases hends with
  | failed t1 s1 hatt1 hcalm hlt hfault htracked =>
    obtain ⟨q, hq, htracked2⟩ := worker_aborts hwrite hatt1 hcalm htracked
      fun _ => StoreSession.finish X
    refine ⟨.error ioError, q, hq, .failed [] _ hfault htracked2 (iff_of_true rfl (hreleased ?_))⟩
    refine wholes_guarded _ _ (Nat.lt_of_lt_of_le hlt ?_)
    obtain ⟨m, hm⟩ := hb
    rw [← hm]
    exact flushOps_mono (Slices.wholes_append hsize b m)
  | flushed t1 s1 n1 fault1 hatt1 hio1 hbefore hpast hbuf1 hsize1 hrefs1 hstored1 htracked1 =>
    by_cases hfault : fault = .ok
    · have hcalm : s1.view.Calm := by
        have hok : fault1 = .ok := by
          by_cases hk : flushOps X st.view.stored (Slices.wholes engine.chunkSize b) ≤ n
          · exact (hbefore hk).2.trans hfault
          · exact hpast (by omega)
        rw [hok] at hio1
        exact hio1.trans (once_good _ _)
      obtain ⟨q, hq, htracked2⟩ := worker_aborts hwrite hatt1 hcalm htracked1
        fun _ => StoreSession.finish X
      exact ⟨.error _, q, hq, .rejected _ _ htooLarge fun _ => htracked2⟩
    · obtain ⟨q, hq⟩ := worker_error hwrite fun _ => StoreSession.finish X
      exact ⟨.error _, q, hq, .rejected _ _ htooLarge fun h => absurd h hfault⟩

include hsize hatt hio in
/-- **The worker of a handler.** It aborts a session that fails in `write`, not one that fails in
`finish`. -/
theorem uploadWorker_ends (hb : Spec.mayBegin engine job.key = .ok ())
    (ending : Ending) (hn : n ≤ flushOps X st.view.stored
      (Slices.slices engine.chunkSize job.frames.flatten) ∨ fault = .ok) :
    ∃ r s', uploadWorker X engine job ending st = result r s' ∧
      UploadEnds st.view fault (job.TooLarge engine)
        (job.frames.flatten = [] ∨ n < flushOps X st.view.stored
          ((Slices.slices engine.chunkSize job.frames.flatten).take
            (max 1 (job.frames.flatten.length / engine.chunkSize))))
        r s'.view := by
  have hrun : uploadWorker X engine job ending st = withSession (job.session engine)
      (uploadLoop X (job.frames.map some ++ [none]) >>= fun _ => StoreSession.finish X) st := by
    rw [uploadWorker, run_bind, beginStore_eq, hb, received_eq]
    rfl
  rw [hrun]
  by_cases hfits : (job.session engine).Fits job.frames.flatten.length
  · obtain ⟨r, p, hx, hends⟩ := worker_within (X := X) hsize hatt hio hfits hn
    exact ⟨r, p.2, withSession_result hx, hends⟩
  · obtain ⟨r, p, hx, hends⟩ := worker_beyond (X := X) hsize hatt hio hfits _ Or.inr
    exact ⟨r, p.2, withSession_result hx, hends⟩

end

end

/-! ## The store when the call has ended -/

theorem storeAfter_result {α : Type} (r : Except Fail α) (s : Store) : storeAfter (result r s) = s := by
  cases r <;> rfl

theorem storeAfter_discard {α : Type} (x : M α) (s : Store) :
    storeAfter ((discard x : M Unit) s) = storeAfter (x s) := by
  rw [run_discard]
  cases x s <;> rfl

/-- A request returns what its worker returns, and leaves what it leaves. -/
theorem UploadRequest.left {engine : StorageEngine} {request : UploadRequest} {job : Upload.Job}
    {st : Store} {r : Except Fail MediaManifest} {s' : Store} (hjob : request.job = some job)
    (h : uploadWorker X engine job request.ending st = result r s') :
    (UploadCall.request request).returned X engine st = some r ∧
      storeAfter (request.run X engine st) = s' := by
  refine ⟨?_, ?_⟩
  · rw [UploadCall.returned, hjob, Option.map_some, h, returned_result]
  · have hjoin : join (uploadWorker X engine job request.ending) st = .ok r s' := by
      rw [join, run_tryCatch, run_map, h]
      cases r <;> rfl
    rw [request_run_eq engine hjob, storeAfter_discard, hjoin]
    rfl

/-- **How an upload ends**: its session is not opened, or it ends as `UploadEnds` says. -/
theorem UploadCall.ends {w : World} {s : Spec} (h : Sim X Set.univ w s)
    (u : UploadCall) {job : Upload.Job} (hjob : u.job = some job) (n : Nat) (fault : IoPlan)
    (hn : n ≤ w.opsOf X (w.pieces job.frames.flatten) ∨ fault = .ok) :
    let w1 := w.withIo (IoPlan.once n fault)
    (∃ e, Spec.mayBegin w.engine job.key = .error e ∧
      u.returned X w.engine w1.store = some (.error e) ∧ (w1.uploaded X u).store = w1.store) ∨
    ∃ r, u.returned X w.engine w1.store = some r ∧
      UploadEnds w1.store.view fault (job.TooLarge w.engine) (job.frames.flatten = [] ∨
        n < w.opsOf X ((w.pieces job.frames.flatten).take (u.guarded w.engine job.frames.flatten)))
        r (w1.uploaded X u).store.view := by
  intro w1
  have hatt : w1.store.attached = true := h.healthy.1
  have hio : w1.store.io = IoPlan.once n fault := rfl
  cases u with
  | store key data contentType metadata =>
    cases hjob
    have hd : [data].flatten = data := by simp
    have hleft : (w1.uploaded X (.store key data contentType metadata)).store = storeAfter
        (w.engine.storeWithMetadata X key data contentType metadata w1.store) :=
      storeAfter_discard _ _
    rw [hleft]
    cases hb : Spec.mayBegin w.engine key with
    | error e =>
      have hrun : w.engine.storeWithMetadata X key data contentType metadata w1.store
          = .error e w1.store := by
        rw [StorageEngine.storeWithMetadata, run_bind, beginStore_eq, hb]
        rfl
      rw [UploadCall.returned, hrun]
      exact .inl ⟨e, rfl, rfl, rfl⟩
    | ok v =>
      dsimp only at hn ⊢
      rw [hd] at hn ⊢
      obtain ⟨r, s', hrun, hends⟩ := storeWithMetadata_ends h.sized hatt hio hb
        data contentType metadata hn
      rw [UploadCall.returned, hrun, returned_result, storeAfter_result]
      refine .inr ⟨r, rfl, ?_⟩
      rw [Upload.Job.TooLarge]
      dsimp only
      rw [hd]
      exact hends
  | request request =>
    have hleft : ∀ r s', uploadWorker X w.engine job request.ending w1.store = result r s' →
        (UploadCall.request request).returned X w.engine w1.store = some r ∧
          (w1.uploaded X (.request request)).store = s' := fun r s' hrun => request.left hjob hrun
    cases hb : Spec.mayBegin w.engine job.key with
    | error e =>
      have hrun : uploadWorker X w.engine job request.ending w1.store
          = result (.error e) w1.store := by
        rw [uploadWorker, run_bind, beginStore_eq, hb]
        rfl
      exact .inl ⟨e, rfl, hleft _ _ hrun⟩
    | ok v =>
      obtain ⟨r, s', hrun, hends⟩ := uploadWorker_ends h.sized hatt hio hb
        request.ending hn
      obtain ⟨hret, hstore⟩ := hleft _ _ hrun
      rw [hstore]
      exact .inr ⟨r, hret, hends⟩

/-! ## Uploads that are too large -/

theorem World.Reachable.withIo_ok (hX : X.Lawful) {w : World} (hw : w.Reachable X) :
    w.withIo (IoPlan.once 0 .ok) = w := by
  obtain ⟨s, h⟩ := hw.sim hX
  have hio : w.store.io = IoPlan.once 0 .ok := (show w.store.io = _ from h.calm).trans (once_good _ 0).symm
  rw [World.withIo, ← hio]

/-- **An upload rejected for its size leaves no trace in the index.** -/
theorem rejected_upload_leaves_no_trace (hX : X.Lawful) {w : World} (hw : w.Reachable X)
    (u : UploadCall) (job : Upload.Job) (hjob : u.job = some job) (hbig : job.TooLarge w.engine) :
    let w' := w.uploaded X u
    (∃ e, u.returned X w.engine w.store = some (.error e) ∧
      (¬ job.Refused w.engine → ∃ msg, e = .error (.tooLarge msg))) ∧
    w'.store.index.manifests = w.store.index.manifests ∧
    (∀ id, w'.store.index.refCount id = w.store.index.refCount id) ∧
    ∀ hex : String, (w.store.index.chunkLocations[hex]?).isSome →
      ∃ f, w.store.files[hex]? = some f ∧ w'.store.files[hex]? = some f := by
  intro w'
  obtain ⟨s, h⟩ := hw.sim hX
  have hends := u.ends h hjob 0 .ok (.inr rfl)
  rw [hw.withIo_ok hX] at hends
  -- the file of an indexed chunk is there, and its count is positive
  have hindexed : ∀ hex : String, (w.store.index.chunkLocations[hex]?).isSome → ∃ (id : ChunkId) (f : _),
      hex = id.toHex ∧ 0 < w.store.index.refCount id ∧ w.store.files[hex]? = some f := by
    intro hex hsome
    obtain ⟨loc, hloc⟩ := Option.isSome_iff_exists.1 hsome
    obtain ⟨f, hf⟩ := Option.isSome_iff_exists.1 (h.sound.present hex loc hloc)
    obtain ⟨d, -, -, rfl, -⟩ := h.sound.encoded hex f hf
    refine ⟨ChunkId.fromData X d, f, rfl, ?_, hf⟩
    rw [IndexState.refCount, hloc]
    exact hw.counted hX _ loc hloc
  rcases hends with ⟨e, hb, hret, hstore⟩ | ⟨r, hret, hends⟩
  · refine ⟨⟨e, hret, fun hnot => ?_⟩, ?_⟩
    · rw [job.refused_iff, hb] at hnot
      exact absurd (fun he => by cases he) hnot
    · rw [show w'.store = w.store from hstore]
      refine ⟨rfl, fun _ => rfl, fun hex hsome => ?_⟩
      obtain ⟨_, f, -, -, hf⟩ := hindexed hex hsome
      exact ⟨f, hf, hf⟩
  · cases hends with
    | committed m c' hfits => exact absurd hbig hfits
    | failed ids c' hfault => exact absurd rfl hfault
    | rejected msg c' _ hc =>
      have htracked := hc rfl
      refine ⟨⟨_, hret, fun _ => ⟨msg, rfl⟩⟩, htracked.manifests, htracked.counts, fun hex hsome => ?_⟩
      obtain ⟨id, f, rfl, hpos, hf⟩ := hindexed hex hsome
      exact ⟨f, hf, htracked.files id f hpos hf⟩

/-- An object of three bytes, two of them the same chunk, where no object may be longer. -/
def threeBytes : World :=
  ((World.fresh ⟨1, 3, false⟩ "data" (Stream'.const .ok)).run Crates.reference
    [.store "a" [1, 2, 1] "" []]).1

theorem threeBytes_reachable : threeBytes.Reachable Crates.reference :=
  ⟨⟨1, 3, false⟩, "data", [.store "a" [1, 2, 1] "" []], by decide, by simp [Call.Sized], rfl⟩

/-- Chunks that are new, repeated and shared with the object, and then too many bytes. -/
def oneByteMore : UploadCall := .request (.rest ⟨"/b", [], [[1], [3], [3, 2]], .clean⟩)

theorem rejected_upload_leaves_no_trace_oneByteMore :
    let w' := threeBytes.uploaded .reference oneByteMore
    (∃ e, oneByteMore.returned .reference threeBytes.engine threeBytes.store = some (.error e) ∧
      (¬ (⟨"b", "application/octet-stream", [], [[1], [3], [3, 2]]⟩ : Upload.Job).Refused
        threeBytes.engine → ∃ msg, e = .error (.tooLarge msg))) ∧
    w'.store.index.manifests = threeBytes.store.index.manifests ∧
    (∀ id, w'.store.index.refCount id = threeBytes.store.index.refCount id) ∧
    ∀ hex : String, (threeBytes.store.index.chunkLocations[hex]?).isSome →
      ∃ f, threeBytes.store.files[hex]? = some f ∧ w'.store.files[hex]? = some f :=
  rejected_upload_leaves_no_trace Crates.reference_lawful threeBytes_reachable oneByteMore
    ⟨"b", "application/octet-stream", [], [[1], [3], [3, 2]]⟩ (by decide +kernel)
    ⟨by decide +kernel, by decide +kernel⟩

/-! ## Uploads in which an operation fails -/

theorem mayBegin_ne_ioError {engine : StorageEngine} {key : String} :
    Spec.mayBegin engine key ≠ .error ioError := by
  unfold Spec.mayBegin validateKey ioError
  split_ifs <;> simp

theorem UploadEnds.of_ioError {fault : IoPlan} {tooLarge released : Prop}
    {r : Except Fail MediaManifest} {c' : View} (h : UploadEnds c fault tooLarge released r c')
    (hr : r = .error ioError) : ∃ ids, Tracked c ids c' ∧ (ids = [] ↔ released) := by
  cases h with
  | committed m => cases hr
  | rejected msg =>
    unfold ioError at hr
    cases hr
  | failed ids c' _ hc hiff => exact ⟨ids, hc, hiff⟩

/-- **When a failed upload releases its references.** An operation up to the append of the manifest
fails, and with it the upload. Then all counts are as before exactly if there was nothing to flush or
the operation is one of the guarded pieces. -/
theorem failed_upload_releases_iff (hX : X.Lawful) {w : World} (hw : w.Reachable X) (u : UploadCall)
    (job : Upload.Job) (hjob : u.job = some job) (n : Nat) (fault : IoPlan)
    (hbefore : n ≤ w.opsOf X (w.pieces job.frames.flatten))
    (herror : u.returned X w.engine (w.withIo (IoPlan.once n fault)).store = some (.error ioError)) :
    (∀ id, ((w.withIo (IoPlan.once n fault)).uploaded X u).store.index.refCount id
        = w.store.index.refCount id)
      ↔ job.frames.flatten = [] ∨ n < w.opsOf X
        ((w.pieces job.frames.flatten).take (u.guarded w.engine job.frames.flatten)) := by
  obtain ⟨s, h⟩ := hw.sim hX
  rcases u.ends h hjob n fault (.inl hbefore) with
    ⟨e, hb, hret, -⟩ | ⟨r, hret, hends⟩
  · obtain rfl := Except.error.inj (Option.some.inj (hret.symm.trans herror))
    exact absurd hb mayBegin_ne_ioError
  · obtain rfl := Option.some.inj (hret.symm.trans herror)
    obtain ⟨ids, htracked, hiff⟩ := hends.of_ioError rfl
    rw [← hiff]
    exact htracked.same_iff

/-- An engine with chunks of two bytes. -/
def pairs : World := World.fresh ⟨2, 0, false⟩ "data" (Stream'.const .ok)

theorem pairs_reachable : pairs.Reachable Crates.reference :=
  ⟨⟨2, 0, false⟩, "data", [], by decide, by simp, rfl⟩

/-- Three bytes, by a caller and by a client. -/
def storeThree : UploadCall := .store "a" [1, 2, 3] "" []
def sendThree : UploadCall := .request (.rest ⟨"/a", [], [[1], [2, 3]], .clean⟩)

/-- The disk is full. -/
def diskFull : IoPlan := ⟨some (.write 0), true, false, none⟩

theorem failed_upload_releases_iff_sendThree :
    (∀ id, ((pairs.withIo (IoPlan.once 1 diskFull)).uploaded .reference sendThree).store.index.refCount
        id = pairs.store.index.refCount id)
      ↔ [[1], [2, 3]].flatten = ([] : Bytes) ∨ 1 < pairs.opsOf .reference
        ((pairs.pieces [[1], [2, 3]].flatten).take
          (sendThree.guarded pairs.engine [[1], [2, 3]].flatten)) :=
  failed_upload_releases_iff Crates.reference_lawful pairs_reachable sendThree
    ⟨"a", "application/octet-stream", [], [[1], [2, 3]]⟩ (by decide +kernel) 1 diskFull
    (by decide +kernel) (by decide +kernel)

/-- The first chunk is stored, the second is not: its reference stays, and there is no manifest. -/
theorem failed_upload_leaks :
    pairs.Reachable Crates.reference ∧
    ∀ u ∈ [storeThree, sendThree],
      u.returned .reference pairs.engine (pairs.withIo (IoPlan.once 2 diskFull)).store
        = some (.error ioError) ∧
      ((pairs.withIo (IoPlan.once 2 diskFull)).uploaded .reference u).store.index.manifests["a"]?
        = none ∧
      ¬ ∀ id, ((pairs.withIo (IoPlan.once 2 diskFull)).uploaded .reference u).store.index.refCount id
        = pairs.store.index.refCount id := by
  have hrun : ∀ u ∈ [storeThree, sendThree],
      u.returned .reference pairs.engine (pairs.withIo (IoPlan.once 2 diskFull)).store
        = some (.error ioError) ∧
      ((pairs.withIo (IoPlan.once 2 diskFull)).uploaded .reference u).store.index.manifests["a"]?
        = none ∧
      ((pairs.withIo (IoPlan.once 2 diskFull)).uploaded .reference u).store.index.refCount
        (ChunkId.fromData .reference [1, 2]) = 1 := by
    decide +kernel
  have hbefore : pairs.store.index.refCount (ChunkId.fromData .reference [1, 2]) = 0 := by
    decide +kernel
  refine ⟨pairs_reachable, fun u hu => ?_⟩
  obtain ⟨hret, hman, hcount⟩ := hrun u hu
  refine ⟨hret, hman, fun hsame => ?_⟩
  rw [hsame, hbefore] at hcount
  cases hcount

end KaidaDB
