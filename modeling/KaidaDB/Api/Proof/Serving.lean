import KaidaDB.Api.Process
import KaidaDB.Api.Proof.DeleteStream
import KaidaDB.Api.Proof.Handlers
import KaidaDB.Api.Proof.StreamMedia
import KaidaDB.Api.Proof.Upload
import KaidaDB.Storage.Proof.FileRules

/-!
# A process and the objects it serves

`Serving X D p s`: the process `p` shows the objects of `s`. The index has the manifest of every object,
the store is sound with no session open, and the cache is genuine. What the handlers do to the store keeps
it: an upload (`Serving.put`), a removal, a rename, the removal of a stream, and a pass of `gc`.
-/

namespace KaidaDB

open Std Effects

variable {X : Crates} {D : Set Bytes} {c : View} {need : ChunkId → Int} {logged : Bool}

/-! ## Uploads in frames -/

/-- The bytes that a session has received and those to come have their pieces in `D`. -/
theorem does_frames : ∀ (frames : List Bytes) {b : Bytes} {t : StoreSession} {c : View},
    c.Calm → Sound X D c (fun a => need a + t.holds a) → Receives X D t b →
    (∀ p, p <:+: b ++ frames.flatten → p ∈ D) →
    ¬ (t.maxObjectSize ≠ 0 ∧ t.maxObjectSize < b.length + frames.flatten.length) →
    ∃ t' c', Does (sessionLens X logged) (uploadLoop X (frames.map some ++ [none])) (t, c) (.ok ())
        (t', c') ∧
      c'.Calm ∧ Sound X D c' (fun a => need a + t'.holds a) ∧ Receives X D t' (b ++ frames.flatten) ∧
      t'.settings = t.settings ∧ c'.index.manifests = c.index.manifests ∧ c'.clock = c.clock
  | [], b, t, c, hc, hs, hr, _, _ =>
    ⟨t, c, Does.pure (), hc, hs, by rwa [List.flatten_nil, List.append_nil], rfl, rfl, rfl⟩
  | frame :: frames, b, t, c, hc, hs, hr, hD, hfits => by
    rw [List.flatten_cons, ← List.append_assoc] at hD
    rw [List.flatten_cons, List.length_append] at hfits
    obtain ⟨t1, c1, hwrite, hc1, hs1, hr1, hset, hman, hclock⟩ := @does_write X D logged _ _ hc _ _ _ hs hr
      (fun p hp => hD p (hp.trans (List.infix_append' [] _ _)))
      (fun h => hfits ⟨h.1, by omega⟩)
    have hmax : t1.maxObjectSize = t.maxObjectSize := congrArg (fun p => p.2.1) hset
    obtain ⟨t', c', hloop, hc', hs', hr', hset', hman', hclock'⟩ := does_frames frames hc1 hs1 hr1 hD
      (by rw [hmax, List.length_append]; omega)
    refine ⟨t', c', Does.bind (Does.tryCatch_ok hwrite) hloop, hc', hs', ?_, hset'.trans hset,
      hman'.trans hman, hclock'.trans hclock⟩
    rwa [List.flatten_cons, ← List.append_assoc]

/-- With the frame that is too much the session is aborted. -/
theorem does_frames_tooLarge : ∀ (frames : List Bytes) {b : Bytes} {t : StoreSession} {c : View},
    c.Calm → Sound X D c (fun a => need a + t.holds a) → Receives X D t b →
    (∀ p, p <:+: b ++ frames.flatten → p ∈ D) →
    ¬ (t.maxObjectSize ≠ 0 ∧ t.maxObjectSize < b.length) →
    t.maxObjectSize ≠ 0 ∧ t.maxObjectSize < b.length + frames.flatten.length →
    ∃ t' c', Does (sessionLens X logged) (uploadLoop X (frames.map some ++ [none])) (t, c)
        (.error (.error (.tooLarge s!"object exceeds max_object_size of {t.maxObjectSize} bytes")))
        (t', c') ∧
      c'.Calm ∧ Sound X D c' need ∧ c'.index.manifests = c.index.manifests
  | [], b, t, c, _, _, _, _, hfits, hbig => absurd hbig (by simpa using hfits)
  | frame :: frames, b, t, c, hc, hs, hr, hD, hfits, hbig => by
    rw [List.flatten_cons, ← List.append_assoc] at hD
    by_cases hnow : t.maxObjectSize ≠ 0 ∧ t.maxObjectSize < b.length + frame.length
    · have hwrite : Does (sessionLens X logged) (StoreSession.write X frame) (t, c) _ (t, c) :=
        does_write_tooLarge hr hnow
      obtain ⟨t', c', habort, hc', hs', hman⟩ := @does_abort X D logged _ _ hc _ hs
      exact ⟨t', c', Does.bind_error (Does.tryCatch_error hwrite (Does.bind habort (Does.throw _))), hc',
        hs', hman⟩
    · obtain ⟨t1, c1, hwrite, hc1, hs1, hr1, hset, hman, -⟩ := @does_write X D logged _ _ hc _ _ _ hs hr
        (fun p hp => hD p (hp.trans (List.infix_append' [] _ _))) hnow
      have hmax : t1.maxObjectSize = t.maxObjectSize := congrArg (fun p => p.2.1) hset
      rw [List.flatten_cons, List.length_append, ← Nat.add_assoc] at hbig
      obtain ⟨t', c', hloop, hc', hs', hman'⟩ := does_frames_tooLarge frames hc1 hs1 hr1 hD
        (by rwa [hmax, List.length_append]) (by rwa [hmax, List.length_append])
      rw [hmax] at hloop
      exact ⟨t', c', Does.bind (Does.tryCatch_ok hwrite) hloop, hc', hs', hman'.trans hman⟩

/-! ## Objects -/

/-- An object whose chunks are in `D`. -/
structure StoredObject.Known (D : Set Bytes) (o : StoredObject) : Prop where
  size : 0 < o.chunkSize
  fits : o.chunkSize < 2 ^ 64
  chunks : ∀ p ∈ Slices.slices o.chunkSize o.data, p ∈ D
  length : o.data.length < 2 ^ 64

theorem StoredObject.Known.describes {o : StoredObject} (h : o.Known D) (key : String) :
    Describes X D (o.manifest X key) o.data := ⟨h.size, rfl, rfl, rfl, h.chunks⟩

/-- The process shows the objects (module doc). -/
structure Serving (X : Crates) (D : Set Bytes) (p : Process) (s : Service) : Prop where
  state : s.state = p.state
  sized : p.state.engine.Sized
  healthy : (lens X true).healthy p.store
  calm : p.store.view.Calm
  sound : Sound X D p.store.view fun _ => 0
  manifests : ∀ key : String,
    p.store.view.index.manifests[key]? = s.objects[key]?.map fun o : StoredObject => o.manifest X key
  known : ∀ (key : String) (o : StoredObject), s.objects[key]? = some o → o.Known D
  clock : p.store.view.clock = s.clock
  cached : Cached X D p.cache

namespace Serving

variable {p : Process} {s : Service} (h : Serving X D p s)
include h

theorem index_manifests : p.store.index.manifests = (s.index X).manifests := by
  refine FinMap.ext_get fun key => (h.manifests key).trans ?_
  rw [Service.index, ExtTreeMap.getElem?_map]

theorem now : p.store.view.nowSecs = s.now := by rw [View.nowSecs, Service.now, h.clock]

theorem setCache {cache : ChunkCache} (hcache : Cached X D cache) :
    Serving X D { p with cache } s := { h with cached := hcache }

/-- A program on the store that leaves other objects. -/
theorem after {α : Type} {x : M α} {r : Except Fail α} {c' : View}
    (hx : Does (lens X true) x p.store.view r c') (hclock : ∀ time, Keeps (Shows time) x)
    (hc : c'.Calm) (hs : Sound X D c' fun _ => 0) {objects : ExtTreeMap String StoredObject}
    (hman : ∀ key : String,
      c'.index.manifests[key]? = objects[key]?.map fun o : StoredObject => o.manifest X key)
    (hknown : ∀ (key : String) (o : StoredObject), objects[key]? = some o → o.Known D) :
    ∃ st, x p.store = result r st ∧ Serving X D { p with store := st } { s with objects } := by
  obtain ⟨st, hrun, hst, rfl⟩ := hx p.store h.healthy rfl
  have htime := hclock p.store.clock p.store rfl
  rw [hrun, left_result] at htime
  exact ⟨st, hrun, { h with
    healthy := hst, calm := hc, sound := hs, manifests := hman, known := hknown,
    clock := (show st.clock = p.store.clock from htime).trans h.clock }⟩

/-- A program that leaves what it shows as it was. -/
theorem same {α : Type} {x : M α} {r : Except Fail α}
    (hx : Does (lens X true) x p.store.view r p.store.view) :
    ∃ st, x p.store = result r st ∧ st.view = p.store.view ∧ Serving X D { p with store := st } s := by
  obtain ⟨st, hrun, hst, hv⟩ := hx p.store h.healthy rfl
  have hview : st.view = p.store.view := hv
  exact ⟨st, hrun, hview, { h with
    healthy := hst
    calm := show st.view.Calm from hview ▸ h.calm
    sound := show Sound X D st.view _ from hview ▸ h.sound
    manifests := fun key => (congrArg (fun v : View => v.index.manifests[key]?) hview).trans
      (h.manifests key)
    clock := (congrArg View.clock hview).trans h.clock }⟩

/-- The objects as the map that the engine refines. -/
theorem sim : Sim X D ⟨p.state.engine, p.store, ∅⟩
    ⟨p.state.engine, s.objects.map fun _ o => o.data, ∅⟩ where
  engine := rfl
  sized := h.sized.1
  healthy := h.healthy
  calm := h.calm
  sound := h.sound.weaken fun id => by simp [needOf]
  objects := fun key => by
    rw [ExtTreeMap.getElem?_map, show p.store.index.manifests[key]? = _ from h.manifests key]
    cases ho : s.objects[key]? with
    | none => exact .none
    | some o => exact .some ((h.known key o ho).describes key)
  uploads := FinMap.Rels.empty
  known := fun handle u hu => by simp at hu

end Serving

/-! ## What the handlers do to the store -/

theorem Shows.uploadWorker {time : Int} (engine : StorageEngine) (job : Upload.Job) (ending : Ending) :
    Keeps (Shows time) (uploadWorker X engine job ending) := by
  have hwrite : ∀ frame, Keeps (OnStore (Shows time)) (StoreSession.write X frame) := Shows.kept.write
  have hloop : ∀ received, Keeps (OnStore (Shows time)) (uploadLoop X received) := by
    intro received
    induction received with
    | nil => exact Keeps.pure ()
    | cons frame rest ih =>
      cases frame with
      | none => exact Keeps.pure ()
      | some chunk =>
        refine Keeps.bind (Keeps.tryCatch (hwrite chunk) fun e => ?_) fun _ => ih
        cases e with
        | error e => exact Keeps.bind Shows.kept.abort fun _ => Keeps.throw _
        | panic message => exact Keeps.throw _
        | diverges => exact Keeps.throw _
  exact Keeps.bind (keeps_beginStore engine _ _ _) fun _ =>
    keeps_withSession (Keeps.bind (hloop _) fun _ => Shows.kept.finish)

theorem Shows.deletePages {time : Int} (keyPrefix : String) (pages : Nat) (cursor : String)
    (counts : Nat × Nat) : Keeps (Shows time) (deletePages X keyPrefix pages cursor counts) := by
  have hpage : ∀ manifests counts, Keeps (Shows time) (deletePage X manifests counts) := by
    intro manifests
    induction manifests with
    | nil => exact fun _ => Keeps.pure _
    | cons m manifests ih => exact fun _ => Keeps.bind (Shows.kept.delete m.key) fun _ => ih _
  induction pages generalizing cursor counts with
  | zero => exact Keeps.throw _
  | succ pages ih =>
    refine Keeps.bind (Keeps.get_bind fun _ => Keeps.pure _) fun page => ?_
    obtain ⟨manifests, nextCursor⟩ := page
    dsimp only
    split_ifs
    · exact Keeps.pure _
    · refine Keeps.bind (hpage manifests counts) fun counts' => ?_
      cases nextCursor with
      | none => exact Keeps.pure _
      | some c => exact ih c counts'

theorem Service.validateKey_eq (key : String) :
    validateKey key = match Service.keyError? key with
      | some e => .error (.error e)
      | none => .ok () := by
  unfold Service.keyError? validateKey
  split_ifs <;> rfl

namespace Serving

variable {p : Process} {s : Service} (h : Serving X D p s)
include h

section
variable (job : Upload.Job) (ending : Ending) (hD : ∀ q, q <:+: job.frames.flatten → q ∈ D)
  (hb : Spec.mayBegin p.state.engine job.key = .ok ())
include hD hb

theorem put_tooLarge (hbig : p.state.engine.maxObjectSize ≠ 0 ∧
      p.state.engine.maxObjectSize < ([] : Bytes).length + job.frames.flatten.length) :
    ∃ st, uploadWorker X p.state.engine job ending p.store = .error (.error (.tooLarge
        s!"object exceeds max_object_size of {p.state.engine.maxObjectSize} bytes")) st ∧
      Serving X D { p with store := st } s := by
  obtain ⟨hbegin, hrec⟩ := @does_beginStore X D true _ _ h.sim _ job.contentType job.metadata
    p.store.view hb
  obtain ⟨t', c', hloop, hc', hs', hman⟩ := @does_frames_tooLarge X D (fun _ => 0) true job.frames _ _ _ h.calm
    (h.sound.weaken fun a => by simp [StoreSession.holds, StorageEngine.newSession]) hrec
    (by simpa using hD) (fun h => Nat.not_lt_zero _ h.2) hbig
  have hworker : Does (lens X true) (uploadWorker X p.state.engine job ending) p.store.view
      (.error (.error (.tooLarge
        s!"object exceeds max_object_size of {p.state.engine.maxObjectSize} bytes"))) c' := by
    unfold uploadWorker
    rw [received_eq]
    exact Does.bind hbegin (does_withSession (Does.bind_error hloop))
  exact h.after hworker (fun _ => Shows.uploadWorker _ job ending) hc' hs'
    (fun key => by rw [hman]; exact h.manifests key) h.known

theorem put_fits (hlen : job.frames.flatten.length < 2 ^ 64)
    (hfits : ¬ (p.state.engine.maxObjectSize ≠ 0 ∧
      p.state.engine.maxObjectSize < ([] : Bytes).length + job.frames.flatten.length)) :
    ∃ st, uploadWorker X p.state.engine job ending p.store = .ok ((s.object job).manifest X job.key) st ∧
      Serving X D { p with store := st } { s with
        objects := s.objects.insert job.key (s.object job) } := by
  obtain ⟨hbegin, hrec⟩ := @does_beginStore X D true _ _ h.sim _ job.contentType job.metadata
    p.store.view hb
  obtain ⟨t, c1, hloop, hc1, hs1, hr1, hset, hman1, hclock1⟩ := @does_frames X D (fun _ => 0) true
    job.frames _ _ _ h.calm (h.sound.weaken fun a => by simp [StoreSession.holds, StorageEngine.newSession]) hrec
    (by simpa using hD) hfits
  obtain ⟨t2, c2, hfinish, hc2, hs2, hd, hman2⟩ := @does_finish X D true _ _ hc1 _ _ hs1 hr1
    (by simpa using hD)
  have hkey : t.key = job.key := congrArg (fun p => p.2.2.1) hset
  have hm : t.manifestOf X ([] ++ job.frames.flatten) c1.nowSecs = (s.object job).manifest X job.key := by
    have hnow : c1.nowSecs = s.now := by
      rw [View.nowSecs, hclock1]
      exact h.now
    have hsize : t.chunkSize = p.state.engine.chunkSize := congrArg (fun p => p.1) hset
    have htype : t.contentType = job.contentType := congrArg (fun p => p.2.2.2.1) hset
    have hmetadata : t.metadata = job.metadata := congrArg (fun p => p.2.2.2.2) hset
    rw [StoreSession.manifestOf, StoredObject.manifest, Service.object, h.state, List.nil_append, hnow,
      hsize, hkey, htype, hmetadata]
  rw [hm] at hfinish hman2 hd
  have hworker : Does (lens X true) (uploadWorker X p.state.engine job ending) p.store.view
      (.ok ((s.object job).manifest X job.key)) c2 := by
    unfold uploadWorker
    rw [received_eq]
    exact Does.bind hbegin (does_withSession (Does.bind hloop hfinish))
  refine h.after hworker (fun _ => Shows.uploadWorker _ job ending) hc2 hs2 (fun key => ?_)
    fun key o ho => ?_
  · rw [hman2, hman1, hkey, FinMap.get_insert, FinMap.get_insert]
    split_ifs with hk
    · subst hk
      rfl
    · exact h.manifests key
  · rw [FinMap.get_insert] at ho
    split_ifs at ho
    · cases ho
      refine ⟨?_, ?_, hd.known, hlen⟩ <;> rw [Service.object, h.state]
      · exact h.sized.1
      · exact h.sized.2
    · exact h.known key o ho

end

/-- **An upload.** Whichever way its body ends, the worker stores what it has received. -/
theorem put (job : Upload.Job) (ending : Ending) (hD : ∀ q, q <:+: job.frames.flatten → q ∈ D)
    (hlen : job.frames.flatten.length < 2 ^ 64) :
    ∃ st, uploadWorker X p.state.engine job ending p.store
        = result ((s.put job).2.map fun o => o.manifest X job.key) st ∧
      Serving X D { p with store := st } (s.put job).1 := by
  have hengine : s.state.engine = p.state.engine := congrArg AppState.engine h.state
  unfold Service.put
  rw [hengine]
  cases hb : Spec.mayBegin p.state.engine job.key with
  | error e =>
    obtain ⟨st, hrun, -, hs⟩ := h.same (Does.bind_error (does_beginStore_error _ _ hb))
    exact ⟨st, hrun, hs⟩
  | ok u =>
    unfold Spec.mayWrite
    by_cases hbig : p.state.engine.maxObjectSize ≠ 0 ∧
        p.state.engine.maxObjectSize < ([] : Bytes).length + job.frames.flatten.length
    · rw [if_pos hbig]
      exact h.put_tooLarge job ending hD hb hbig
    · rw [if_neg hbig]
      exact h.put_fits job ending hD hb hlen hbig

/-- **A removal.** -/
theorem delete (key : String) :
    ∃ st, StorageEngine.delete X key p.store = .ok (s.delete key).2 st ∧
      Serving X D { p with store := st } (s.delete key).1 := by
  have herase : ∀ (k : String) (o : StoredObject), (s.objects.erase key)[k]? = some o → o.Known D := fun
      k o ho => by
    rw [FinMap.get_erase] at ho
    split_ifs at ho
    exact h.known k o ho
  have hlookup := h.manifests key
  unfold Service.delete
  cases ho : s.objects[key]? with
  | none =>
    rw [ho] at hlookup
    obtain ⟨st, hrun, -, hs⟩ := h.same (does_delete_none hlookup)
    rw [FinMap.erase_of_none ho]
    exact ⟨st, hrun, hs⟩
  | some o =>
    rw [ho] at hlookup
    obtain ⟨c', hx, hc', hs', hman, -⟩ := @does_delete X D true _ _ h.calm h.sound _ _ hlookup
    exact h.after hx (fun _ => Shows.kept.delete key) hc' hs' (fun k => by
      rw [hman, FinMap.get_erase, FinMap.get_erase]
      split_ifs
      · rfl
      · exact h.manifests k) herase

theorem rename_error {fromKey toKey : String} {e : KaidaDbError}
    (hmay : Spec.mayRename (s.objects.map fun _ o => o.data) fromKey toKey = .error (.error e)) :
    ∃ st, StorageEngine.rename X fromKey toKey p.store = .error (.error e) st ∧
      Serving X D { p with store := st } s := by
  obtain ⟨st, hrun, -, hs⟩ := h.same
    (@does_rename_error X true _ _ _ _ _ (fun key => h.sim.objects.isSome key) hmay)
  exact ⟨st, hrun, hs⟩

/-- **A rename.** -/
theorem rename (fromKey toKey : String) :
    ∃ st, StorageEngine.rename X fromKey toKey p.store
        = result (((s.rename fromKey toKey).2.map fun o => o.manifest X toKey).mapError .error) st ∧
      Serving X D { p with store := st } (s.rename fromKey toKey).1 := by
  have hlookup : ∀ key : String, (s.objects.map fun _ o => o.data)[key]? = s.objects[key]?.map
      StoredObject.data := fun key => ExtTreeMap.getElem?_map
  unfold Service.rename
  cases hvalid : Service.keyError? toKey with
  | some e =>
    refine h.rename_error ?_
    rw [Spec.mayRename, Service.validateKey_eq, hvalid]
  | none =>
    by_cases hne : fromKey = toKey
    · rw [if_pos hne]
      refine h.rename_error ?_
      rw [Spec.mayRename, Service.validateKey_eq, hvalid]
      exact if_pos hne
    · rw [if_neg hne]
      cases hfrom : s.objects[fromKey]? with
      | none =>
        refine h.rename_error ?_
        rw [Spec.mayRename, Service.validateKey_eq, hvalid]
        dsimp only
        rw [if_neg hne, hlookup, hfrom]
        rfl
      | some o =>
        dsimp only
        by_cases hto : (s.objects[toKey]?).isSome = true
        · rw [if_pos hto]
          refine h.rename_error ?_
          rw [Spec.mayRename, Service.validateKey_eq, hvalid]
          dsimp only
          rw [if_neg hne, hlookup, hlookup, hfrom]
          exact if_pos (by rwa [Option.isSome_map])
        · rw [if_neg hto]
          have hvalid' : validateKey toKey = .ok () := by rw [Service.validateKey_eq, hvalid]
          have hfrom' := h.manifests fromKey
          have hto' := h.manifests toKey
          rw [hfrom] at hfrom'
          rw [Option.not_isSome_iff_eq_none.1 hto] at hto'
          obtain ⟨m, c', hx, hc', hs', hm, hman, -⟩ :=
            @does_rename X D true _ _ h.calm h.sound _ _ _ hvalid' hne hfrom' hto'
          rw [h.now] at hm
          subst hm
          refine h.after hx (fun _ => Shows.kept.rename fromKey toKey) hc' hs' (fun key => ?_)
            fun key o' ho' => ?_
          · rw [hman, FinMap.get_erase, FinMap.get_erase, FinMap.get_insert, FinMap.get_insert]
            split_ifs with h1 h2
            · rfl
            · subst h2
              rfl
            · exact h.manifests key
          · rw [FinMap.get_erase, FinMap.get_insert] at ho'
            split_ifs at ho'
            · cases ho'
              have hknown := h.known fromKey o hfrom
              exact ⟨hknown.size, hknown.fits, hknown.chunks, hknown.length⟩
            · exact h.known key o' ho'

theorem matchingKeys_objects (keyPrefix : String) :
    matchingKeys keyPrefix p.store.index = s.objects.keys.filter (startsWith · keyPrefix) := by
  rw [matchingKeys, matching, h.index_manifests, Service.index, ExtTreeMap.toList_map, List.filter_map,
    List.map_map, ← ExtTreeMap.map_fst_toList_eq_keys, List.filter_map]
  rfl

/-- **The removal of a stream.** -/
theorem deleteStream (streamId : String) :
    ∃ st, KaidaDB.deleteStream X p.state.streaming.toStreamingConfig streamId
        (p.store.index.manifests.size + 1) p.store = .ok (s.deleteStream streamId).2 st ∧
      Serving X D { p with store := st } (s.deleteStream streamId).1 := by
  unfold Service.deleteStream Service.streamKeys
  rw [show s.state.streaming = p.state.streaming from congrArg AppState.streaming h.state]
  generalize hstarts : deletedPrefix p.state.streaming.toStreamingConfig streamId = keyPrefix
  obtain ⟨c', hx, hgone⟩ := does_deletePages (X := X) (hstarts ▸ deletedPrefix_ne _ _)
    (p.store.index.manifests.size + 1) none (0, 0) h.calm h.sound
    (Nat.lt_succ_of_le (length_matchingKeys_le p.store.index)) (fun _ h => by cases h)
    (fun _ h => by cases h)
  have hkeys : matchingKeys keyPrefix p.store.view.index = _ := h.matchingKeys_objects keyPrefix
  have hcounts : countKeys (0, 0) (matchingKeys keyPrefix p.store.view.index)
      = ((s.objects.keys.filter (startsWith · keyPrefix)).countP (endsWith · "/init.mp4"),
        (s.objects.keys.filter (startsWith · keyPrefix)).countP fun key => !endsWith key "/init.mp4") := by
    rw [hkeys, countKeys, Nat.zero_add, Nat.zero_add]
  rw [hcounts] at hx
  rw [KaidaDB.deleteStream, hstarts]
  refine h.after hx (fun _ => Shows.deletePages _ _ _ _) hgone.calm hgone.sound (fun key => ?_)
    fun key o ho => ?_
  · rw [hgone.manifests, ExtTreeMap.getElem?_filter', h.manifests]
    by_cases hin : key ∈ matchingKeys keyPrefix p.store.view.index
    · rw [if_pos hin, (mem_matchingKeys.1 hin).2]
      cases s.objects[key]? <;> rfl
    · rw [if_neg hin]
      cases ho : s.objects[key]? with
      | none => rfl
      | some o =>
        have hnot : startsWith key keyPrefix = false := by
          rw [mem_matchingKeys, h.manifests, ho] at hin
          simpa using hin
        rw [hnot]
        rfl
  · rw [ExtTreeMap.getElem?_filter', Option.filter_eq_some_iff] at ho
    exact h.known key o ho.1

/-- **A pass of `gc`** changes nothing that is served. -/
theorem gc (grace : Nat) :
    ∃ report st, StorageEngine.gc grace p.store = .ok report st ∧
      Serving X D { p with store := st } s := by
  obtain ⟨report, c', hx, hc', hs', hindex⟩ := @does_gc X D true _ _ h.calm h.sound grace
  obtain ⟨st, hrun, hst⟩ := h.after hx (fun _ => (Shows.kept (X := X)).gc grace) hc' hs'
    (fun key => by rw [hindex]; exact h.manifests key) h.known
  exact ⟨report, st, hrun, hst⟩

/-- **A new process** on the directory, with other settings. -/
theorem restart (hX : X.Lawful) (state : AppState) (durability : Durability) (maxCache : Nat)
    (hsize : state.engine.Sized) :
    ∃ st, Index.openWith X p.store durability = .ok st ∧
      Serving X D ⟨state, .new maxCache, st⟩ { s with state } := by
  obtain ⟨-, hlogged⟩ := h.healthy
  obtain ⟨entries, hopen⟩ := (hlogged rfl).openWith hX durability
  exact ⟨_, hopen, {
    state := rfl
    sized := hsize
    healthy := ⟨rfl, fun _ => hlogged rfl⟩
    calm := h.calm
    sound := h.sound.frame rfl rfl
    manifests := h.manifests
    known := h.known
    clock := h.clock
    cached := .new maxCache }⟩

end Serving

/-- Removing chunks from the cache. -/
theorem invalidateAll_run {cache : ChunkCache} (h : Cached X D cache) (ids : List ChunkId) :
    ∃ cache', Cached X D cache' ∧
      ∀ st, KaidaDB.invalidateAll ids cache st = .ok ((), cache') st := by
  induction ids generalizing cache with
  | nil => exact ⟨cache, h, fun _ => rfl⟩
  | cons id ids ih =>
    obtain ⟨cache1, hstep, hcached1⟩ := h.step (.invalidate id) nofun
    obtain ⟨cache2, hcached2, hrest⟩ := ih hcached1
    refine ⟨cache2, hcached2, fun st => ?_⟩
    have hcheck : (check (cache.invalidate id) : M ChunkCache) st = .ok cache1 st := by
      rw [show cache.invalidate id = .ok cache1 from hstep]
      rfl
    have hget : (get : ServerM ChunkCache) cache st = .ok (cache, cache) st := rfl
    have hset : (set cache1 : ServerM PUnit) cache st = .ok ((), cache1) st := rfl
    rw [KaidaDB.invalidateAll, run_bind_server hget, run_lift hcheck, run_bind_server hset]
    exact hrest st

end KaidaDB
