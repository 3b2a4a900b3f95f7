import KaidaDB.Api.Upload
import KaidaDB.Crates.Reference
import KaidaDB.Storage.Proof.Refinement

/-!
# What an upload leaves behind

The worker cannot tell the end of a body from its loss: it commits what it has received unless the
session could not be opened or grew too large (`does_uploadWorker`). `upload_invisible_iff`: an upload
that did not end cleanly changes no manifest exactly if one of these happened, or if the manifest it
commits is there already.
-/

namespace KaidaDB

open Std Effects

variable {X : Crates} {logged : Bool} {c : View} {need : ChunkId → Int}

/-- The manifest the worker commits. -/
def Upload.Job.manifest (X : Crates) (job : Upload.Job) (engine : StorageEngine) (now : Int) :
    MediaManifest where
  key := job.key
  chunks := (Slices.slices engine.chunkSize job.frames.flatten).map (ChunkId.fromData X)
  totalSize := job.frames.flatten.length
  chunkSize := engine.chunkSize
  contentType := job.contentType
  checksum := String.ofList (hexEncode (X.sha256 job.frames.flatten).toList)
  metadata := job.metadata
  createdAt := now
  updatedAt := now

/-- The session is not opened: the key is not valid, or no buffer of one chunk can be allocated. -/
def Upload.Job.Refused (job : Upload.Job) (engine : StorageEngine) : Prop :=
  validateKey job.key ≠ .ok () ∨ isizeMax < engine.chunkSize

/-- The frames exceed the size limit. -/
def Upload.Job.TooLarge (job : Upload.Job) (engine : StorageEngine) : Prop :=
  engine.maxObjectSize ≠ 0 ∧ engine.maxObjectSize < job.frames.flatten.length

/-- No manifest changes: the worker is not started, opens no session, aborts, or commits a manifest
that is there already. -/
def UploadRequest.Invisible (X : Crates) (request : UploadRequest) (w : World) : Prop :=
  ∀ job, request.job = some job → job.Refused w.engine ∨ job.TooLarge w.engine ∨
    w.store.index.manifests[job.key]? = some (job.manifest X w.engine w.store.view.nowSecs)

/-! ## The worker -/

/-- Whichever way the body ends, the worker receives the same. -/
theorem received_eq (frames : List Bytes) (ending : Ending) :
    received frames ending = frames.map some ++ [none] := by
  cases ending <;> rfl

/-- Frames that fit. -/
theorem does_uploadLoop : ∀ (frames : List Bytes) {b : Bytes} {t : StoreSession} {c : View},
    c.Calm → Sound X Set.univ c (fun a => need a + t.holds a) → Receives X Set.univ t b →
    ¬ (t.maxObjectSize ≠ 0 ∧ t.maxObjectSize < b.length + frames.flatten.length) →
    ∃ t' c', Does (sessionLens X logged) (uploadLoop X (frames.map some ++ [none])) (t, c) (.ok ())
        (t', c') ∧
      c'.Calm ∧ Sound X Set.univ c' (fun a => need a + t'.holds a) ∧
      Receives X Set.univ t' (b ++ frames.flatten) ∧ t'.settings = t.settings ∧
      c'.index.manifests = c.index.manifests ∧ c'.clock = c.clock
  | [], b, t, c, hc, hs, hr, _ =>
    ⟨t, c, Does.pure (), hc, hs, by rwa [List.flatten_nil, List.append_nil], rfl, rfl, rfl⟩
  | frame :: frames, b, t, c, hc, hs, hr, hfits => by
    have hflat : (frame :: frames).flatten.length = frame.length + frames.flatten.length := by
      rw [List.flatten_cons, List.length_append]
    have hfit : ¬ (t.maxObjectSize ≠ 0 ∧ t.maxObjectSize < b.length + frame.length) := fun h =>
      hfits ⟨h.1, by omega⟩
    obtain ⟨t1, c1, hwrite, hc1, hs1, hr1, hset, hman, hclock⟩ :=
      @does_write X _ logged _ _ hc _ _ _ hs hr (fun _ _ => trivial) hfit
    have hmax : t1.maxObjectSize = t.maxObjectSize := congrArg (fun p => p.2.1) hset
    obtain ⟨t', c', hloop, hc', hs', hr', hset', hman', hclock'⟩ := does_uploadLoop frames hc1 hs1
      hr1 (by rw [hmax, List.length_append]; omega)
    refine ⟨t', c', ?_, hc', hs', ?_, hset'.trans hset, hman'.trans hman, hclock'.trans hclock⟩
    · exact Does.bind (Does.tryCatch_ok hwrite) hloop
    · rwa [List.flatten_cons, ← List.append_assoc]

/-- Frames that do not. -/
theorem does_uploadLoop_tooLarge : ∀ (frames : List Bytes) {b : Bytes} {t : StoreSession} {c : View},
    c.Calm → Sound X Set.univ c (fun a => need a + t.holds a) → Receives X Set.univ t b →
    ¬ (t.maxObjectSize ≠ 0 ∧ t.maxObjectSize < b.length) →
    t.maxObjectSize ≠ 0 ∧ t.maxObjectSize < b.length + frames.flatten.length →
    ∃ e t' c', Does (sessionLens X logged) (uploadLoop X (frames.map some ++ [none])) (t, c)
        (.error e) (t', c') ∧ c'.index.manifests = c.index.manifests
  | [], b, t, c, _, _, _, hfits, hbig => absurd hbig (by simpa using hfits)
  | frame :: frames, b, t, c, hc, hs, hr, hfits, hbig => by
    by_cases hnow : t.maxObjectSize ≠ 0 ∧ t.maxObjectSize < b.length + frame.length
    · have hwrite : Does (sessionLens X logged) (StoreSession.write X frame) (t, c) _ (t, c) :=
        does_write_tooLarge hr hnow
      obtain ⟨t', c', habort, -, -, hman⟩ := @does_abort X _ logged _ _ hc _ hs
      exact ⟨_, t', c', Does.bind_error (Does.tryCatch_error hwrite
        (Does.bind habort (Does.throw _))), hman⟩
    · obtain ⟨t1, c1, hwrite, hc1, hs1, hr1, hset, hman, -⟩ :=
        @does_write X _ logged _ _ hc _ _ _ hs hr (fun _ _ => trivial) hnow
      have hmax : t1.maxObjectSize = t.maxObjectSize := congrArg (fun p => p.2.1) hset
      rw [List.flatten_cons, List.length_append, ← Nat.add_assoc] at hbig
      obtain ⟨e, t', c', hloop, hman'⟩ := does_uploadLoop_tooLarge frames hc1 hs1 hr1
        (by rwa [hmax, List.length_append]) (by rwa [hmax, List.length_append])
      exact ⟨e, t', c', Does.bind (Does.tryCatch_ok hwrite) hloop, hman'.trans hman⟩

theorem Upload.Job.refused_iff (job : Upload.Job) (engine : StorageEngine) :
    job.Refused engine ↔ Spec.mayBegin engine job.key ≠ .ok () := by
  unfold Upload.Job.Refused Spec.mayBegin
  cases validateKey job.key with
  | error e => simp
  | ok u =>
    dsimp only
    split_ifs with h <;> simp [h]

/-- **The worker commits what it has received**, unless it is refused or too large. -/
theorem does_uploadWorker {w : World} {s : Spec} (h : Sim X Set.univ w s)
    (job : Upload.Job) (ending : Ending) :
    ∃ r c', Does (lens X true) (uploadWorker X w.engine job ending) w.store.view r c' ∧
      (job.Refused w.engine ∨ job.TooLarge w.engine →
        c'.index.manifests = w.store.index.manifests) ∧
      (¬ job.Refused w.engine → ¬ job.TooLarge w.engine → c'.index.manifests
        = w.store.index.manifests.insert job.key
          (job.manifest X w.engine w.store.view.nowSecs)) := by
  rw [job.refused_iff]
  cases hb : Spec.mayBegin w.engine job.key with
  | error e =>
    exact ⟨.error e, w.store.view, Does.bind_error (does_beginStore_error _ _ hb), fun _ => rfl,
      fun hnot => absurd (by simp) hnot⟩
  | ok u =>
    let t := w.engine.newSession job.key job.contentType job.metadata
    obtain ⟨hbegin, hrec⟩ := @does_beginStore X _ true _ _ h _ job.contentType job.metadata
      w.store.view hb
    have hs : Sound X Set.univ w.store.view fun a => needOf w.sessions a + t.holds a :=
      h.sound.weaken fun a => by simp [t, StoreSession.holds, StorageEngine.newSession]
    unfold uploadWorker
    rw [received_eq]
    have hzero : ([] : Bytes).length + job.frames.flatten.length = job.frames.flatten.length :=
      Nat.zero_add _
    by_cases hbig : job.TooLarge w.engine
    · obtain ⟨e, t', c', hloop, hman⟩ := @does_uploadLoop_tooLarge X true _ job.frames _ _ _
        h.calm hs hrec (fun h => Nat.not_lt_zero _ h.2) (hzero.symm ▸ hbig)
      exact ⟨.error e, c', Does.bind hbegin (does_withSession (Does.bind_error hloop)),
        fun _ => hman, fun _ hnot => absurd hbig hnot⟩
    · obtain ⟨t1, c1, hloop, hc1, hs1, hr1, hset, hman1, hclock⟩ := @does_uploadLoop X true _
        job.frames _ _ _ h.calm hs hrec (hzero.symm ▸ hbig)
      rw [List.nil_append] at hr1
      obtain ⟨t2, c2, hfinish, -, -, -, hman2⟩ := @does_finish X _ true _ _ hc1 _ _ hs1 hr1
        (fun _ _ => trivial)
      have hm : t1.manifestOf X job.frames.flatten c1.nowSecs
          = job.manifest X w.engine w.store.view.nowSecs := by
        have hnow : c1.nowSecs = w.store.view.nowSecs := by
          rw [View.nowSecs, View.nowSecs, hclock]
        have h1 : t1.chunkSize = w.engine.chunkSize := congrArg (fun p => p.1) hset
        have h2 : t1.key = job.key := congrArg (fun p => p.2.2.1) hset
        have h3 : t1.contentType = job.contentType := congrArg (fun p => p.2.2.2.1) hset
        have h4 : t1.metadata = job.metadata := congrArg (fun p => p.2.2.2.2) hset
        rw [StoreSession.manifestOf, Upload.Job.manifest, hnow, h1, h2, h3, h4]
      refine ⟨.ok _, c2, Does.bind hbegin (does_withSession (Does.bind hloop hfinish)),
        fun hor => absurd hor (by simpa using hbig), fun _ _ => ?_⟩
      rw [hman2, hman1, hm, show t1.key = job.key from congrArg (fun p => p.2.2.1) hset]
      rfl

/-- Awaiting a program never fails. -/
theorem does_join {α : Type} {x : M α} {r : Except Fail α} {c' : View}
    (h : Does (lens X logged) x c r c') : Does (lens X logged) (join x) c (.ok r) c' := by
  cases r with
  | ok a => exact Does.tryCatch_ok (h.map _)
  | error e => exact Does.tryCatch_error (h.map_error _) (Does.pure _)

/-! ## The handlers -/

theorem exists_reply {α β : Type} (x : M α) {f : α → M β} (hf : ∀ a, ∃ b, f a = pure b) :
    ∃ reply : α → β, x >>= f = reply <$> x := by
  choose reply hreply using hf
  refine ⟨reply, ?_⟩
  rw [funext hreply]
  exact bind_pure_comp reply x

/-- After their worker the handlers only make a response. -/
theorem putMedia_eq (engine : StorageEngine) (request : PutMedia) :
    ∃ reply, putMedia X engine request
      = reply <$> join (uploadWorker X engine request.job request.ending) := by
  refine exists_reply _ fun r => ?_
  cases request.ending with
  | dropped => exact ⟨_, rfl⟩
  | readError text refused =>
    dsimp only
    split_ifs
    · exact ⟨_, rfl⟩
    · exact ⟨_, rfl⟩
  | clean => exact ⟨_, rfl⟩

theorem storeMedia_eq (engine : StorageEngine) {request : StoreMedia} {job : Upload.Job}
    (hjob : request.job = .ok job) :
    ∃ reply, storeMedia X engine request
      = reply <$> join (uploadWorker X engine job request.ending) := by
  unfold storeMedia
  rw [hjob]
  refine exists_reply _ fun r => ?_
  cases request.ending with
  | dropped => exact ⟨_, rfl⟩
  | readError text refused =>
    dsimp only
    split_ifs
    · exact ⟨_, rfl⟩
    · exact ⟨_, rfl⟩
  | clean => exact ⟨_, rfl⟩

theorem discard_map {α β : Type} (f : α → β) (x : M α) : (discard (f <$> x) : M Unit) = discard x := by
  funext s
  rw [run_discard, run_discard, run_map]
  cases x s <;> rfl

theorem job_of_toOption {request : StoreMedia} {job : Upload.Job}
    (h : request.job.toOption = some job) : request.job = .ok job := by
  cases hj : request.job with
  | error status =>
    rw [hj] at h
    cases h
  | ok job' =>
    rw [hj] at h
    exact congrArg Except.ok (Option.some.inj h)

/-- A request does to the store what its worker does. -/
theorem request_run_eq (engine : StorageEngine) {request : UploadRequest} {job : Upload.Job}
    (hjob : request.job = some job) :
    request.run X engine = discard (join (uploadWorker X engine job request.ending)) := by
  cases request with
  | rest request =>
    cases hjob
    obtain ⟨reply, heq⟩ := putMedia_eq (X := X) engine request
    exact (congrArg discard heq).trans (discard_map reply _)
  | grpc request =>
    obtain ⟨reply, heq⟩ := storeMedia_eq (X := X) engine (job_of_toOption hjob)
    exact (congrArg discard heq).trans (discard_map reply _)

theorem does_run {engine : StorageEngine} {request : UploadRequest} {job : Upload.Job}
    {r : Except Fail MediaManifest} {c' : View} (hjob : request.job = some job)
    (h : Does (lens X logged) (uploadWorker X engine job request.ending) c r c') :
    Does (lens X logged) (request.run X engine) c (.ok ()) c' := by
  rw [request_run_eq engine hjob]
  exact (does_join h).map _

/-- Without a worker nothing happens. -/
theorem does_run_none {engine : StorageEngine} {request : UploadRequest}
    (hjob : request.job = none) :
    Does (lens X logged) (request.run X engine) c (.ok ()) c := by
  cases request with
  | rest request => cases hjob
  | grpc request =>
    have hrun : ∃ response, Does (lens X logged) (storeMedia X engine request) c (.ok response) c := by
      unfold storeMedia
      cases hj : request.job with
      | error status => exact ⟨_, Does.pure _⟩
      | ok job => simp [UploadRequest.job, hj, Except.toOption] at hjob
    obtain ⟨response, hrun⟩ := hrun
    exact hrun.map _

/-- **An upload that did not end cleanly stays invisible exactly under `Invisible`.** -/
theorem upload_invisible_iff (hX : X.Lawful) {w : World} (hw : w.Reachable X)
    (request : UploadRequest) :
    (request.ending ≠ .clean →
        (w.upload X request).store.index.manifests = w.store.index.manifests)
      ↔ request.ending = .clean ∨ request.Invisible X w := by
  obtain ⟨s, h⟩ := hw.sim hX
  rw [or_iff_not_imp_left]
  refine imp_congr_right fun _ => ?_
  have hstore : ∀ {c' : View}, Does (lens X true) (request.run X w.engine) w.store.view (.ok ()) c' →
      (w.upload X request).store.index = c'.index := by
    intro c' hdoes
    obtain ⟨st, h1, -, h3⟩ := hdoes w.store h.healthy rfl
    rw [World.upload, h1]
    exact congrArg View.index h3
  cases hjob : request.job with
  | none =>
    have hsame := hstore (does_run_none hjob)
    exact iff_of_true (congrArg IndexState.manifests hsame) fun job hj => by
      rw [hjob] at hj
      cases hj
  | some job =>
    obtain ⟨r, c', hworker, hkept, hput⟩ := does_uploadWorker h job request.ending
    have hman : (w.upload X request).store.index.manifests = c'.index.manifests :=
      congrArg IndexState.manifests (hstore (does_run hjob hworker))
    have hinv : request.Invisible X w ↔ job.Refused w.engine ∨ job.TooLarge w.engine ∨
        w.store.index.manifests[job.key]? = some (job.manifest X w.engine w.store.view.nowSecs) := by
      refine ⟨fun h => h job hjob, fun h job' hj => ?_⟩
      cases hjob.symm.trans hj
      exact h
    rw [hman, hinv]
    by_cases hrefused : job.Refused w.engine
    · exact iff_of_true (hkept (.inl hrefused)) (.inl hrefused)
    by_cases hbig : job.TooLarge w.engine
    · exact iff_of_true (hkept (.inr hbig)) (.inr (.inl hbig))
    rw [hput hrefused hbig, or_iff_right hrefused, or_iff_right hbig]
    refine ⟨fun h => ?_, FinMap.insert_self⟩
    rw [← h, FinMap.get_insert, if_pos rfl]

/-! ## An upload that is cut short -/

/-- An object of two bytes. -/
def twoBytes : World :=
  ((World.fresh ⟨1, 0, false⟩ "data" (Stream'.const .ok)).run Crates.reference
    [.store "a" [1, 2] "" []]).1

theorem twoBytes_reachable : twoBytes.Reachable Crates.reference :=
  ⟨⟨1, 0, false⟩, "data", [.store "a" [1, 2] "" []], by decide, by simp [Call.Sized], rfl⟩

/-- The body of a new version is lost after its first byte. -/
def cutShort : UploadRequest := .rest ⟨"/a", [], [[3]], .dropped⟩

theorem upload_invisible_iff_cutShort :
    (cutShort.ending ≠ .clean → (twoBytes.upload Crates.reference cutShort).store.index.manifests
        = twoBytes.store.index.manifests)
      ↔ cutShort.ending = .clean ∨ cutShort.Invisible Crates.reference twoBytes :=
  upload_invisible_iff Crates.reference_lawful twoBytes_reachable cutShort

/-- The byte replaces the object. -/
theorem upload_visible : twoBytes.Reachable Crates.reference ∧
    ¬ (cutShort.ending ≠ .clean → (twoBytes.upload Crates.reference cutShort).store.index.manifests
      = twoBytes.store.index.manifests) := by
  refine ⟨twoBytes_reachable, fun h => ?_⟩
  have hsize := congrArg (fun t => (t["a"]?).map MediaManifest.totalSize) (h (by decide))
  revert hsize
  decide +kernel

end KaidaDB
