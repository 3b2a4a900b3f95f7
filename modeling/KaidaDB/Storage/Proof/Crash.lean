import KaidaDB.Storage.Crash
import KaidaDB.Storage.Proof.Kept
import KaidaDB.Storage.Proof.Refinement

/-!
# A store session is carried out or not

`Safe X D need ok c`: the view is sound for the references `need`, and `ok` holds of its manifests.
A session is followed through every operation it makes (`Stops`): wherever the process ends, the
view is sound for what the other sessions hold, and the manifests are those from before or have
the new one (`stops_storeSession`). So a crash of a session is a step of the map from keys to bytes
that either stores the object or does nothing (`Sim.crashed`), and objects outlive any number of
crashes (`store_crash_atomic`).
-/

namespace KaidaDB

open Std Effects

variable {X : Crates} {D : Set Bytes} {logged compacts : Bool} {c : View} {need : ChunkId → Int}
  {ok : ExtTreeMap String MediaManifest → Prop}

/-! ## The plans of a process that ends -/

theorem stopsAfter_tail (n : Nat) (compacts : Bool) :
    (stopsAfter (n + 1) compacts).tail = stopsAfter n compacts := by
  funext i
  show (if i + 1 < n + 1 then IoPlan.ok else _) = if i < n then IoPlan.ok else _
  simp only [Nat.add_lt_add_iff_right]

theorem stopsAfter_zero_tail (compacts : Bool) :
    (stopsAfter 0 compacts).tail = stopsAfter 0 compacts := rfl

theorem stopsAfter_attached (n : Nat) (compacts : Bool) :
    (stopsAfter n compacts).head.compact ≠ some .afterRename := by
  cases n with
  | zero => cases compacts <;> decide
  | succ n => exact (by decide : IoPlan.ok.compact ≠ some .afterRename)

/-- The view with `n` operations to come. -/
def View.alive (compacts : Bool) (n : Nat) (c : View) : View := { c with io := stopsAfter n compacts }

/-- No operation is to come. -/
def View.Stopped (compacts : Bool) (c : View) : Prop := c.io = stopsAfter 0 compacts

/-- A store in a process that ends after some operations. -/
def mortal (X : Crates) (compacts : Bool) : Mortal Store View where
  toLens := lens X true
  alive := View.alive compacts
  stopped := View.Stopped compacts

namespace View.Stopped

variable (h : c.Stopped compacts)
include h

theorem tail : View.Stopped compacts { c with io := c.io.tail } := by
  show c.io.tail = _
  rw [show c.io = stopsAfter 0 compacts from h, stopsAfter_zero_tail]

theorem failsAppend (sync : Bool) : c.FailsAppend true sync := by
  refine .inl ⟨0, ?_, fun _ => rfl⟩
  rw [show c.io = stopsAfter 0 compacts from h]
  cases compacts <;> rfl

theorem writeFails : c.io.head.writeFails = true := by
  rw [show c.io = stopsAfter 0 compacts from h]
  cases compacts <;> rfl

theorem removeFails : c.io.head.removeFails = true := by
  rw [show c.io = stopsAfter 0 compacts from h]
  cases compacts <;> rfl

end View.Stopped

theorem View.stopped_alive (c : View) : (c.alive compacts 0).Stopped compacts := rfl

theorem View.appends_alive (c : View) (n : Nat) (sync : Bool) :
    (c.alive compacts (n + 1)).Appends sync := .inl rfl

/-- The view is sound and its manifests are as they should be (module doc). -/
structure Safe (X : Crates) (D : Set Bytes) (need : ChunkId → Int)
    (ok : ExtTreeMap String MediaManifest → Prop) (c : View) : Prop where
  sound : Sound X D c need
  manifests : ok c.index.manifests

theorem Safe.io (h : Safe X D need ok c) (io : Stream' IoPlan) : Safe X D need ok { c with io } :=
  ⟨h.sound.frame rfl rfl, h.manifests⟩

/-! ## Nothing happens after the end -/

/-- What holds once the process has ended. -/
abbrev Ended (X : Crates) (D : Set Bytes) (compacts : Bool) (need : ChunkId → Int)
    (ok : ExtTreeMap String MediaManifest → Prop) : Store → Prop :=
  (mortal X compacts).Dead (Safe X D need ok)

/-- Programs that change nothing where everything fails. -/
theorem keeps_of_does {α : Type} {x : M α} (h : ∀ c : View, c.Stopped compacts →
    ∃ r io, Does (lens X true) x c r { c with io := io } ∧ View.Stopped compacts { c with io := io }) :
    Keeps (Ended X D compacts need ok) x :=
  Keeps.of_does fun c hstop hsafe =>
    have ⟨r, io, hx, hstop'⟩ := h c hstop
    ⟨r, { c with io := io }, hx, hstop', hsafe.io io⟩

theorem keeps_append {α : Type} {e : LogEntry} {sync : Bool} {k : Unit → M α} :
    Keeps (Ended X D compacts need ok) (Index.appendEntry X e sync >>= k) :=
  keeps_of_does fun _ h => ⟨_, _, does_append_error (h.failsAppend sync), h.tail⟩

theorem keeps_addChunkRef {id : ChunkId} {path : String} :
    Keeps (Ended X D compacts need ok) (Index.addChunkRef X id path) :=
  keeps_of_does fun _ h => ⟨_, _, does_addChunkRef_error (h.failsAppend false), h.tail⟩

theorem keeps_decrement {id : ChunkId} :
    Keeps (Ended X D compacts need ok) (Index.decrementChunkRef X id) :=
  keeps_of_does fun c h => by
    cases hop : droppedRef c.index id with
    | none => exact ⟨_, c.io, does_decrementChunkRef_none hop, h⟩
    | some op => exact ⟨_, _, does_decrementChunkRef_error hop (h.failsAppend false), h.tail⟩

theorem keeps_writeChunk {id : ChunkId} {data : Bytes} :
    Keeps (Ended X D compacts need ok) (BlobStore.writeChunk X id data) :=
  keeps_of_does fun c h => by
    by_cases hf : c.files.contains id.toHex = true
    · exact ⟨_, c.io, does_writeChunk_found hf, h⟩
    · exact ⟨_, _, does_writeChunk_error hf h.writeFails, h.tail⟩

theorem keeps_deleteChunk {id : ChunkId} :
    Keeps (Ended X D compacts need ok) (BlobStore.deleteChunk id) :=
  keeps_of_does fun c h => by
    by_cases hf : c.files.contains id.toHex = true
    · exact ⟨_, _, does_deleteChunk_error hf h.removeFails, h.tail⟩
    · exact ⟨_, c.io, does_deleteChunk_none hf, h⟩

/-- Nothing that a session does leaves a trace. -/
theorem ended_kept : Kept X (Ended X D compacts need ok) :=
  .of_steps (fun _ _ => keeps_writeChunk) (fun _ => keeps_deleteChunk) (fun _ _ => keeps_addChunkRef)
    (fun _ => keeps_decrement) fun _ => keeps_append

/-! ### Programs on a session -/

/-- A session in a process that ends after some operations. -/
def sessionMortal (X : Crates) (compacts : Bool) :
    Mortal (StoreSession × Store) (StoreSession × View) where
  toLens := sessionLens X true
  alive n p := (p.1, p.2.alive compacts n)
  stopped p := p.2.Stopped compacts

abbrev SafeWith (X : Crates) (D : Set Bytes) (need : ChunkId → Int)
    (ok : ExtTreeMap String MediaManifest → Prop) (p : StoreSession × View) : Prop :=
  Safe X D need ok p.2

/-- What holds of a session once the process has ended. -/
abbrev SessionEnded (X : Crates) (D : Set Bytes) (compacts : Bool) (need : ChunkId → Int)
    (ok : ExtTreeMap String MediaManifest → Prop) : StoreSession × Store → Prop :=
  (sessionMortal X compacts).Dead (SafeWith X D need ok)

theorem sessionEnded_iff {t : StoreSession} {s : Store} :
    SessionEnded X D compacts need ok (t, s) ↔ Ended X D compacts need ok s :=
  ⟨fun h => ⟨h.1, h.2, h.3⟩, fun h => ⟨h.1, h.2, h.3⟩⟩

theorem sessionEnded_eq :
    SessionEnded X D compacts need ok = OnStore (Ended X D compacts need ok) :=
  funext fun _ => propext sessionEnded_iff

/-- A program that keeps what holds of the store, once the process has ended. -/
theorem keeps_ended {α : Type} {x : SM α} (h : Keeps (OnStore (Ended X D compacts need ok)) x) :
    Keeps (SessionEnded X D compacts need ok) x := sessionEnded_eq ▸ h

/-! ## Every operation of a session -/

/-- A program whose operations are made or have been stopped before, on the store of a session. -/
theorem stops_onStore {α : Type} {x : M α} {r : Except Fail α} {c' : View} {t : StoreSession}
    (h : Stops (mortal X compacts) (Safe X D need ok) x c r c') :
    Stops (sessionMortal X compacts) (SafeWith X D need ok) (onStore x) (t, c) r (t, c') := by
  rintro n ⟨t', s⟩ hs hv
  obtain ⟨rfl, hv'⟩ := Prod.mk.inj hv
  rcases h n s hs hv' with ⟨m, s', h1, h2, h3⟩ | hdead
  · refine .inl ⟨m, (t', s'), ?_, h2, congrArg (Prod.mk t') h3⟩
    simp only [onStore, h1]
    cases r <;> rfl
  · rw [left_onStore]
    exact .inr (sessionEnded_iff.2 hdead)

theorem stops_onSession {t : StoreSession} (f : StoreSession → StoreSession) :
    Stops (sessionMortal X compacts) (SafeWith X D need ok) (onSession f) (t, c) (.ok ()) (f t, c) :=
  Stops.of_does fun _ => does_onSession f

theorem stops_getSession {α : Type} {t : StoreSession} {f : StoreSession × Store → SM α}
    {r : Except Fail α} {p : StoreSession × View}
    (h : ∀ s : Store, Stops (sessionMortal X compacts) (SafeWith X D need ok) (f (t, s)) (t, c) r p) :
    Stops (sessionMortal X compacts) (SafeWith X D need ok) (get >>= f) (t, c) r p := by
  refine Stops.get_bind ?_
  rintro n ⟨t', s⟩ - hv
  obtain ⟨rfl, -⟩ := Prod.mk.inj hv
  exact h s

theorem stops_withSession {α : Type} {x : SM α} {r : Except Fail α} {c' : View}
    {t t' : StoreSession}
    (h : Stops (sessionMortal X compacts) (SafeWith X D need ok) x (t, c) r (t', c')) :
    Stops (mortal X compacts) (Safe X D need ok) (withSession t x) c r c' := by
  intro n s hs hv
  rcases h n (t, s) hs (congrArg (Prod.mk t) hv) with ⟨m, ⟨t1, s'⟩, h1, h2, h3⟩ | hdead
  · refine .inl ⟨m, s', ?_, h2, (Prod.mk.inj h3).2⟩
    simp only [withSession, h1]
    cases r <;> rfl
  · rw [left_withSession]
    exact .inr (sessionEnded_iff.1 hdead)

theorem alive_tail (c : View) (n : Nat) :
    (c.alive compacts (n + 1)).io.tail = stopsAfter n compacts := stopsAfter_tail n compacts

theorem applied_alive (c : View) (n : Nat) (e : LogEntry) :
    (c.alive compacts (n + 1)).applied e = (c.applied e).alive compacts n := by
  rw [View.applied, View.alive, View.alive, View.applied, stopsAfter_tail]

section
variable (hsafe : Safe X D need ok c)
include hsafe

theorem stops_writeChunk {id : ChunkId} {data : Bytes} :
    Stops (mortal X compacts) (Safe X D need ok) (BlobStore.writeChunk X id data) c
      (.ok (BlobStore.chunkPath c.dataDir id)) (c.written X id data) := by
  unfold View.written
  by_cases hf : c.files.contains id.toHex = true
  · rw [if_pos hf]
    exact Stops.of_does fun n => does_writeChunk_found (c := c.alive compacts n) hf
  · rw [if_neg hf]
    refine Stops.op (fun n => ?_) (does_writeChunk_error (c := c.alive compacts 0) hf
      (c.stopped_alive.writeFails)) (c.stopped_alive).tail (hsafe.io _)
    have h : Does (lens X true) (BlobStore.writeChunk X id data) (c.alive compacts (n + 1)) _ _ :=
      does_writeChunk rfl
    unfold View.written at h
    rw [if_neg (show ¬ (c.alive compacts (n + 1)).files.contains id.toHex = true from hf),
      alive_tail] at h
    exact h

theorem stops_addChunkRef {id : ChunkId} {path : String} :
    Stops (mortal X compacts) (Safe X D need ok) (Index.addChunkRef X id path) c (.ok ())
      (c.applied (.putChunkLocation id.toHex (addedRef c.index id path))) := by
  refine Stops.op (fun n => ?_) (does_addChunkRef_error (c.stopped_alive.failsAppend false))
    (c.stopped_alive).tail (hsafe.io _)
  have h : Does (lens X true) (Index.addChunkRef X id path) (c.alive compacts (n + 1)) _ _ :=
    does_addChunkRef (c.appends_alive n false)
  rwa [applied_alive] at h

theorem stops_putManifest {m : MediaManifest} :
    Stops (mortal X compacts) (Safe X D need ok) (Index.putManifest X m) c (.ok ())
      (c.applied (.putManifest m)) := by
  refine Stops.op (fun n => ?_) (does_putManifest_error (c.stopped_alive.failsAppend true))
    (c.stopped_alive).tail (hsafe.io _)
  have hcompact : (c.alive compacts (n + 1)).io.tail.head.compact ≠ some .afterRename := by
    rw [alive_tail]
    exact stopsAfter_attached n compacts
  have h : Does (lens X true) (Index.putManifest X m) (c.alive compacts (n + 1)) _ _ :=
    does_putManifest (c.appends_alive n true) hcompact
  rwa [applied_alive] at h

theorem stops_decrement (id : ChunkId) :
    Stops (mortal X compacts) (Safe X D need ok) (Index.decrementChunkRef X id) c
      (.ok (lastRef c.index id)) { c with index := c.index.dropRef id } := by
  unfold IndexState.dropRef
  cases hop : droppedRef c.index id with
  | none =>
    have hlast : lastRef c.index id = false := by
      rw [lastRef, Option.map_eq_none_iff.1 hop]
      rfl
    rw [hlast]
    exact Stops.of_does fun n => does_decrementChunkRef_none (c := c.alive compacts n) hop
  | some op =>
    refine Stops.op (fun n => ?_) (does_decrementChunkRef_error (c := c.alive compacts 0) hop
      (c.stopped_alive.failsAppend false)) (c.stopped_alive).tail (hsafe.io _)
    have h : Does (lens X true) (Index.decrementChunkRef X id) (c.alive compacts (n + 1)) _ _ :=
      does_decrementChunkRef hop (c.appends_alive n false)
    rwa [applied_alive] at h

theorem stops_deleteChunk (id : ChunkId) :
    Stops (mortal X compacts) (Safe X D need ok) (ignoreError (BlobStore.deleteChunk id)) c (.ok ())
      (c.unlinked id) := by
  unfold View.unlinked
  by_cases hf : c.files.contains id.toHex = true
  · rw [if_pos hf]
    refine Stops.op (fun n => ?_) (does_ignoreError_error (does_deleteChunk_error
      (c := c.alive compacts 0) hf c.stopped_alive.removeFails)) (c.stopped_alive).tail (hsafe.io _)
    have h : Does (lens X true) (BlobStore.deleteChunk id) (c.alive compacts (n + 1)) _ _ :=
      does_deleteChunk rfl
    unfold View.unlinked at h
    rw [if_pos (show (c.alive compacts (n + 1)).files.contains id.toHex = true from hf),
      alive_tail] at h
    exact does_ignoreError_ok h
  · rw [if_neg hf]
    exact Stops.of_does fun n =>
      does_ignoreError_ok (does_deleteChunk_none (c := c.alive compacts n) hf)

end

/-! ## The session -/

theorem stops_releaseReplaced {need' : ChunkId → Int} (hs : Sound X D c need')
    (hm : ok c.index.manifests) (id : ChunkId)
    (hneed : ∀ a, need a ≤ need' a - if id = a then 1 else 0) :
    Stops (mortal X compacts) (Safe X D need ok) (StoreSession.releaseReplaced X id) c (.ok ())
      (c.released id) := by
  have hsafe : Safe X D need ok c := by
    refine ⟨hs.weaken fun a => (hneed a).trans ?_, hm⟩
    split_ifs <;> omega
  have hdropped : Safe X D need ok { c with index := c.index.dropRef id } :=
    ⟨(hs.dropped id).weaken hneed, (dropRef_manifests c.index id).symm ▸ hm⟩
  refine Stops.bind (stops_decrement hsafe id) ?_ fun last => ?_
  · unfold View.released
    cases lastRef c.index id with
    | true => exact stops_deleteChunk hdropped id
    | false => exact Stops.pure ()
  · split_ifs
    · exact keeps_ignoreError keeps_deleteChunk
    · exact Keeps.pure ()

/-- The references of a replaced version are dropped one by one, or not all of them. -/
theorem stops_releases : ∀ (ids : List ChunkId) {c : View} {need' : ChunkId → Int},
    Sound X D c need' → ok c.index.manifests → (∀ a, need a ≤ need' a - ids.count a) →
    Stops (mortal X compacts) (Safe X D need ok) (ids.forM (StoreSession.releaseReplaced X)) c
      (.ok ()) (ids.foldl View.released c)
  | [], _, _, _, _, _ => Stops.pure ()
  | id :: ids, c, need', hs, hm, hneed => by
    have hcount : ∀ a, need a ≤ need' a - (if id = a then 1 else 0) - ids.count a := fun a => by
      have h := hneed a
      rw [List.count_cons] at h
      by_cases ha : id = a
      · simp only [ha, beq_self_eq_true, if_true] at h ⊢
        omega
      · simp only [ha, beq_iff_eq, if_false] at h ⊢
        omega
    have hm' : ok (c.released id).index.manifests := by
      rw [released_index, dropRef_manifests]
      exact hm
    refine Stops.bind (stops_releaseReplaced hs hm id fun a => ?_)
      (stops_releases ids (hs.released id) hm' hcount) fun _ =>
        Keeps.forM ended_kept.releaseReplaced ids
    have := hcount a
    omega

theorem stops_flushChunk {t : StoreSession} (hs : Sound X D c fun a => need a + t.holds a)
    (hm : ok c.index.manifests) (hbuf : t.buf ∈ D) (hlen : t.buf.length ≤ isizeMax)
    (hne : t.buf ≠ []) :
    Stops (sessionMortal X compacts) (SafeWith X D need ok) (StoreSession.flushChunk X) (t, c)
      (.ok ()) (t.flushed X, c.flushed X t.buf) := by
  have hneed : ∀ a, need a ≤ need a + t.holds a := fun a => by
    have : 0 ≤ t.holds a := Int.natCast_nonneg _
    omega
  have hsafe : Safe X D need ok c := ⟨hs.weaken hneed, hm⟩
  have hwritten : Safe X D need ok (c.written X (ChunkId.fromData X t.buf) t.buf) := by
    refine ⟨(hs.written hbuf hlen).1.weaken hneed, ?_⟩
    rw [written_index]
    exact hm
  refine stops_getSession fun s => ?_
  rw [if_neg hne]
  refine Stops.bind (stops_onSession _) ?_ fun _ => ?_
  · refine Stops.bind (stops_onStore (stops_writeChunk hsafe)) ?_ fun path => ?_
    · refine Stops.bind (stops_onStore (stops_addChunkRef hwritten)) (stops_onSession _) fun _ => ?_
      exact keeps_ended (keeps_onSession _)
    · exact keeps_ended (Keeps.bind (keeps_onStore keeps_addChunkRef) fun _ => keeps_onSession _)
  · refine keeps_ended (Keeps.bind (keeps_onStore keeps_writeChunk) fun path => ?_)
    exact Keeps.bind (keeps_onStore keeps_addChunkRef) fun _ => keeps_onSession _

theorem stops_nowSecs : Stops (mortal X compacts) (Safe X D need ok) nowSecs c (.ok c.nowSecs) c :=
  Stops.of_does fun n => does_nowSecs (c := c.alive compacts n)

theorem stops_getManifest {key : String} :
    Stops (mortal X compacts) (Safe X D need ok) (Index.getManifest key) c
      (.ok c.index.manifests[key]?) c :=
  Stops.of_does fun n => does_getManifest (c := c.alive compacts n)

theorem stops_flushChunk_nil {t : StoreSession} (h : t.buf = []) :
    Stops (sessionMortal X compacts) (SafeWith X D need ok) (StoreSession.flushChunk X) (t, c)
      (.ok ()) (t, c) :=
  Stops.of_does fun _ => does_flushChunk_nil h

/-- The rules for a process that may end at any operation, while the manifests are `old`. -/
theorem stops_rules {old : ExtTreeMap String MediaManifest} (hok : ok old) :
    FlushRules X D need (fun c => c.index.manifests = old) fun x p p' =>
      Stops (sessionMortal X compacts) (SafeWith X D need ok) x p (.ok ()) p' where
  done _ := Stops.pure ()
  get h := stops_getSession h
  edit h n p hp hv := by
    obtain ⟨t', s⟩ := p
    obtain ⟨rfl, hv'⟩ := Prod.mk.inj hv
    exact h n _ hp (congrArg (Prod.mk _) hv')
  flush hc hs hbuf hlen hne h :=
    Stops.bind (stops_flushChunk hs (by rw [hc]; exact hok) hbuf hlen hne) h fun _ =>
      keeps_ended (ended_kept.writeLoop _ _)
  flushed d hc := (flushed_manifests _ d).trans hc

/-- One `write` of a session, which may be refused. -/
def tryWrite (X : Crates) (data : Bytes) : SM Unit :=
  tryCatch (StoreSession.write X data) fun _ => pure ()

/-- The rules that the writes of a session need besides. -/
structure SessionRules (X : Crates) (D : Set Bytes) (need : ChunkId → Int) (Good : View → Prop)
    (T : SM Unit → StoreSession × View → StoreSession × View → Prop) : Prop
    extends FlushRules X D need Good T where
  accepted : ∀ {data : Bytes} {p p'}, T (StoreSession.write X data) p p' → T (tryWrite X data) p p'
  refused : ∀ {data : Bytes} {t : StoreSession} {c : View} {e},
    (∀ c : View, Does (sessionLens X true) (StoreSession.write X data) (t, c) (.error e) (t, c)) →
    T (tryWrite X data) (t, c) (t, c)
  more : ∀ {data : Bytes} {writes : List Bytes} {p p' p''}, T (tryWrite X data) p p' →
    T (writes.forM (tryWrite X)) p' p'' → T ((data :: writes).forM (tryWrite X)) p p''

theorem keeps_tryWrite (data : Bytes) :
    Keeps (SessionEnded X D compacts need ok) (tryWrite X data) :=
  Keeps.tryCatch (keeps_ended (ended_kept.write data)) fun _ => Keeps.pure ()

theorem does_session_rules : SessionRules X D need View.Calm fun x p p' =>
    Does (sessionLens X true) x p (.ok ()) p' where
  toFlushRules := does_rules
  accepted h := Does.tryCatch_ok h
  refused h := Does.tryCatch_error (h _) (Does.pure ())
  more h hs := Does.bind h hs

theorem stops_session_rules {old : ExtTreeMap String MediaManifest} (hok : ok old) :
    SessionRules X D need (fun c => c.index.manifests = old) fun x p p' =>
      Stops (sessionMortal X compacts) (SafeWith X D need ok) x p (.ok ()) p' where
  toFlushRules := stops_rules hok
  accepted h := Stops.tryCatch_ok h fun _ => Keeps.pure ()
  refused {data t c e} h := by
    have hx : Stops (sessionMortal X compacts) (SafeWith X D need ok) (StoreSession.write X data)
        (t, c) (.error e) (t, c) := Stops.of_does fun _ => h _
    exact Stops.tryCatch_error hx (Stops.pure ()) fun _ => Keeps.pure ()
  more h hs := Stops.bind h hs fun _ => Keeps.forM keeps_tryWrite _

theorem Spec.prefix_accepted (limit : Nat) : ∀ (writes : List Bytes) (b : Bytes),
    b <+: Spec.accepted limit b writes
  | [], _ => List.prefix_rfl
  | data :: writes, b => by
    rw [Spec.accepted]
    cases Spec.mayWrite limit b data with
    | error e => exact prefix_accepted limit writes b
    | ok u => exact (List.prefix_append b data).trans (prefix_accepted limit writes (b ++ data))

/-- **What a session has received after its writes.** -/
theorem SessionRules.writes {Good : View → Prop}
    {T : SM Unit → StoreSession × View → StoreSession × View → Prop}
    (R : SessionRules X D need Good T) :
    ∀ (writes : List Bytes) {b : Bytes} {t : StoreSession} {c : View}, Good c →
      Sound X D c (fun a => need a + t.holds a) → Receives X D t b →
      (∀ p, p <:+: Spec.accepted t.maxObjectSize b writes → p ∈ D) →
      ∃ t' c', T (writes.forM (tryWrite X)) (t, c) (t', c') ∧ Good c' ∧
        Sound X D c' (fun a => need a + t'.holds a) ∧
        Receives X D t' (Spec.accepted t.maxObjectSize b writes) ∧ t'.settings = t.settings ∧
        c'.index.manifests = c.index.manifests ∧ c'.clock = c.clock
  | [], b, t, c, hc, hs, hr, _ => ⟨t, c, R.done _, hc, hs, hr, rfl, rfl, rfl⟩
  | data :: writes, b, t, c, hc, hs, hr, hD => by
    rw [Spec.accepted, Spec.mayWrite] at hD ⊢
    by_cases hbig : t.maxObjectSize ≠ 0 ∧ t.maxObjectSize < b.length + data.length
    · -- this write is refused
      rw [if_pos hbig] at hD ⊢
      obtain ⟨t', c', h1, h2, h3, h4, h5, h6, h7⟩ := R.writes writes hc hs hr hD
      exact ⟨t', c', R.more (R.refused fun c => does_write_tooLarge hr hbig) h1, h2, h3, h4, h5, h6,
        h7⟩
    · rw [if_neg hbig] at hD ⊢
      have hinf : ∀ p, p <:+: b ++ data → p ∈ D := fun p hp =>
        hD p (hp.trans (Spec.prefix_accepted _ writes _).isInfix)
      obtain ⟨t1, c1, h1, h2, h3, h4, h5, h6, h7⟩ := R.writeLoop data.length le_rfl hc hs hr hinf
      have hwrite : T (StoreSession.write X data) (t, c) (t1, c1) := by
        refine R.get fun s => ?_
        dsimp only
        rw [hr.written, if_neg hbig]
        exact h1
      have hlimit : t1.maxObjectSize = t.maxObjectSize := congrArg (fun p => p.2.1) h5
      obtain ⟨t', c', g1, g2, g3, g4, g5, g6, g7⟩ := R.writes writes h2 h3 h4 (by rwa [hlimit])
      rw [hlimit] at g4
      exact ⟨t', c', R.more (R.accepted hwrite) g1, g2, g3, g4, g5.trans h5, g6.trans h6,
        g7.trans h7⟩

theorem manifestOf_settings {t t' : StoreSession} (h : t'.settings = t.settings) (b : Bytes)
    (now : Int) : t'.manifestOf X b now = t.manifestOf X b now := by
  obtain ⟨h1, -, h3, h4, h5⟩ : _ ∧ _ ∧ _ ∧ _ ∧ _ := by
    simpa only [StoreSession.settings, Prod.mk.injEq] using h
  rw [StoreSession.manifestOf, StoreSession.manifestOf, h1, h3, h4, h5]

/-- **Committing a session**: the process ends before the manifest is put, or after it. -/
theorem stops_finish {t : StoreSession} {b : Bytes} {old : ExtTreeMap String MediaManifest}
    (hm : c.index.manifests = old) (hs : Sound X D c fun a => need a + t.holds a)
    (hr : Receives X D t b) (hD : ∀ p, p <:+: b → p ∈ D) (hok : ok old)
    (hok' : ok (old.insert t.key (t.manifestOf X b c.nowSecs))) :
    ∃ t' c', Stops (sessionMortal X compacts) (SafeWith X D need ok) (StoreSession.finish X) (t, c)
        (.ok (t.manifestOf X b c.nowSecs)) (t', c') ∧
      Sound X D c' need ∧ c'.index.manifests = old.insert t.key (t.manifestOf X b c.nowSecs) ∧
      Describes X D (t.manifestOf X b c.nowSecs) b := by
  obtain ⟨t1, c1, hflush, h1⟩ : ∃ t1 c1,
      Stops (sessionMortal X compacts) (SafeWith X D need ok) (StoreSession.flushChunk X) (t, c)
        (.ok ()) (t1, c1) ∧ LastFlush X D need (fun c => c.index.manifests = old) t b c t1 c1 := by
    by_cases h0 : t.buf = []
    · exact ⟨t, c, stops_flushChunk_nil h0, .nil hm hs hr h0⟩
    · have hbuf := hD _ hr.buffered
      exact ⟨_, _, stops_flushChunk hs (hm ▸ hok) hbuf (hr.room.le.trans hr.small) h0,
        .chunk ((flushed_manifests c _).trans hm) hs hr h0 hbuf⟩
  let m := t.manifestOf X b c.nowSecs
  let c2 := c1.applied (.putManifest m)
  have hnow : c1.nowSecs = c.nowSecs := by rw [View.nowSecs, View.nowSecs, h1.clock]
  have hm1 : StoreSession.manifest X t1 c1.nowSecs = m := by rw [h1.manifest, hnow]
  have hs2 := h1.put c.nowSecs
  have hman2 : c2.index.manifests = old.insert t.key m := by
    show c1.index.manifests.insert m.key m = _
    rw [h1.manifests, hm]
    rfl
  have hsafe1 : Safe X D need ok c1 := by
    refine ⟨h1.sound.weaken fun a => ?_, ?_⟩
    · have : 0 ≤ t1.holds a := Int.natCast_nonneg _
      omega
    · rw [h1.manifests, hm]
      exact hok
  have hdesc : Describes X D m b := ⟨hr.size, rfl, rfl, rfl, h1.known⟩
  have hrun : ∀ {c' : View},
      Stops (sessionMortal X compacts) (SafeWith X D need ok)
        (StoreSession.releasePrevious X c.index.manifests[t.key]? m) (t1, c2) (.ok m) (t1, c') →
      Stops (sessionMortal X compacts) (SafeWith X D need ok) (StoreSession.finish X) (t, c)
        (.ok m) (t1, c') := by
    intro c' h
    refine Stops.bind hflush (stops_getSession fun s => ?_) fun _ => Keeps.get_bind fun p => ?_
    · refine Stops.bind (stops_onStore stops_nowSecs) ?_ fun now => ?_
      · rw [hm1]
        refine Stops.bind (stops_onStore stops_getManifest) ?_ fun o => ?_
        · refine Stops.bind (stops_onStore (stops_putManifest hsafe1)) ?_ fun _ =>
            keeps_ended (ended_kept.replace _ m)
          rw [h1.manifests]
          exact h
        · exact keeps_ended (Keeps.bind (keeps_onStore keeps_append) fun _ => ended_kept.replace o _)
      · refine keeps_ended (Keeps.bind (keeps_onStore (keeps_getManifest _)) fun o => ?_)
        exact Keeps.bind (keeps_onStore keeps_append) fun _ => ended_kept.replace o _
    · refine keeps_ended (Keeps.bind (keeps_onStore keeps_nowSecs) fun now => ?_)
      refine Keeps.bind (keeps_onStore (keeps_getManifest _)) fun o => ?_
      exact Keeps.bind (keeps_onStore keeps_append) fun _ => ended_kept.replace o _
  cases hold : c.index.manifests[t.key]? with
  | none =>
    rw [hold] at hs2 hrun
    exact ⟨t1, c2, hrun (Stops.pure m), hs2.weaken fun a => by simp, hman2, hdesc⟩
  | some prev =>
    rw [hold] at hs2 hrun
    refine ⟨t1, prev.chunks.foldl View.released c2, hrun ?_,
      (Sound.releases prev.chunks hs2).weaken fun a => by simp, (releases_manifests _ _).trans hman2,
      hdesc⟩
    refine Stops.bind (stops_onStore (stops_releases prev.chunks hs2 ?_ fun a => ?_)) (Stops.pure m)
      fun _ => Keeps.pure m
    · rw [hman2]
      exact hok'
    · simp

/-! ## Worlds -/

/-- The manifest of the object that the session stores. -/
def SessionCalls.manifest (X : Crates) (u : SessionCalls) (engine : StorageEngine) (now : Int) :
    MediaManifest :=
  (engine.newSession u.key u.contentType u.metadata).manifestOf X (u.accepted engine) now

/-- The manifests from before, or with the one that is put. -/
def OrPut (old : ExtTreeMap String MediaManifest) (m : MediaManifest)
    (new : ExtTreeMap String MediaManifest) : Prop := new = old ∨ new = old.insert m.key m

section
variable {w : World} {s : Spec} (h : Sim X D w s) (u : SessionCalls)
include h

/-- A session that began holds nothing. -/
theorem Sim.session : Sound X D w.store.view fun a => needOf w.sessions a
    + (w.engine.newSession u.key u.contentType u.metadata).holds a :=
  h.sound.weaken fun a => by simp [StoreSession.holds, StorageEngine.newSession]

variable (hb : Spec.mayBegin w.engine u.key = .ok ())
  (hD : ∀ p, p <:+: u.accepted w.engine → p ∈ D)
include hb hD

/-- The session, when the process outlives it. -/
theorem Sim.does_storeSession :
    ∃ c', Does (lens X true) (w.engine.storeSession X u) w.store.view
        (.ok (u.manifest X w.engine w.store.view.nowSecs)) c' ∧ c'.Calm ∧
      Sound X D c' (needOf w.sessions) ∧ c'.index.manifests
        = w.store.index.manifests.insert u.key (u.manifest X w.engine w.store.view.nowSecs) := by
  obtain ⟨hbegin, hrec⟩ := @does_beginStore X D true _ _ h _ u.contentType u.metadata
    w.store.view hb
  obtain ⟨t, c, h1, h2, h3, h4, h5, h6, h7⟩ := does_session_rules.writes u.writes h.calm
    (h.session u) hrec hD
  have hnow : c.nowSecs = w.store.view.nowSecs := by rw [View.nowSecs, View.nowSecs, h7]
  obtain ⟨t', c', g1, g2, g3, -, g5⟩ := does_finish h2 h3 h4 hD
  have hkey : t.key = u.key := congrArg (fun p => p.2.2.1) h5
  rw [manifestOf_settings h5, hnow] at g1 g5
  refine ⟨c', Does.bind hbegin (does_withSession (Does.bind h1 g1)), g2, g3, ?_⟩
  rw [g5, h6, hkey]
  rfl

/-- **The session, when the process ends at any of its operations.** -/
theorem Sim.stops_storeSession (compacts : Bool) :
    ∃ c', Stops (mortal X compacts) (Safe X D (needOf w.sessions)
          (OrPut w.store.index.manifests (u.manifest X w.engine w.store.view.nowSecs)))
        (w.engine.storeSession X u) w.store.view
        (.ok (u.manifest X w.engine w.store.view.nowSecs)) c' ∧
      Sound X D c' (needOf w.sessions) ∧
      c'.index.manifests = w.store.index.manifests.insert u.key
        (u.manifest X w.engine w.store.view.nowSecs) ∧
      Describes X D (u.manifest X w.engine w.store.view.nowSecs) (u.accepted w.engine) := by
  let m := u.manifest X w.engine w.store.view.nowSecs
  let ok := OrPut w.store.index.manifests m
  have hok : ok w.store.index.manifests := .inl rfl
  obtain ⟨-, hrec⟩ := @does_beginStore X D true _ _ h _ u.contentType u.metadata
    w.store.view hb
  have hbegin : Stops (mortal X compacts) (Safe X D (needOf w.sessions) ok)
      (w.engine.beginStore u.key u.contentType u.metadata) w.store.view
      (.ok (w.engine.newSession u.key u.contentType u.metadata)) w.store.view :=
    Stops.of_does fun _ => (does_beginStore h u.contentType u.metadata hb).1
  obtain ⟨t, c, h1, h2, h3, h4, h5, h6, h7⟩ := SessionRules.writes
    (@stops_session_rules X D compacts _ ok _ hok) u.writes rfl (h.session u) hrec hD
  have hnow : c.nowSecs = w.store.view.nowSecs := by rw [View.nowSecs, View.nowSecs, h7]
  have hkey : t.key = u.key := congrArg (fun p => p.2.2.1) h5
  have hman : t.manifestOf X (u.accepted w.engine) c.nowSecs = m := by
    rw [manifestOf_settings h5, hnow]
    rfl
  have hreceived : Receives X D t (u.accepted w.engine) := h4
  have hput : ok (w.store.index.manifests.insert t.key
      (t.manifestOf X (u.accepted w.engine) c.nowSecs)) := by
    rw [hkey, hman]
    exact .inr rfl
  obtain ⟨t', c', g1, g2, g3, g4⟩ := @stops_finish X D compacts _ _ ok _ _ _ h2 h3 hreceived hD
    hok hput
  rw [hman] at g1 g3 g4
  rw [hkey] at g3
  refine ⟨c', Stops.bind hbegin (stops_withSession (Stops.bind h1 g1 fun _ =>
    keeps_ended ended_kept.finish)) fun t => keeps_withSession ?_, g2, g3, g4⟩
  exact Keeps.bind (Keeps.forM (fun data => Keeps.tryCatch (ended_kept.write data) fun _ =>
    Keeps.pure ()) _) fun _ => ended_kept.finish

end

theorem completed_eq (w : World) (u : SessionCalls) : w.completed X u
    = { w with store := left (w.engine.storeSession X u w.store) } := by
  rw [World.completed, World.onEngine]
  cases w.engine.storeSession X u w.store <;> rfl

/-- Opening the engine again finds the index as it was in memory. -/
theorem step_reopen_index (hX : X.Lawful) {w : World} (hw : (lens X true).healthy w.store)
    (engine : StorageEngine) (durability : Durability) :
    (w.step X (.reopen engine durability)).1.store.index = w.store.index := by
  obtain ⟨entries, hopen⟩ := (hw.2 rfl).openWith hX durability
  rw [World.step, hopen]

/-- The session does not begin. -/
theorem does_storeSession_error {engine : StorageEngine} {u : SessionCalls} {e : Fail}
    (hb : Spec.mayBegin engine u.key = .error e) :
    Does (lens X logged) (engine.storeSession X u) c (.error e) c :=
  Does.bind_error (does_beginStore_error u.contentType u.metadata hb)

/-- What a session stores: the object, under a manifest that describes it. -/
structure Stores (X : Crates) (D : Set Bytes) (w : World) (u : SessionCalls) : Prop where
  begins : Spec.mayBegin w.engine u.key = .ok ()
  described : Describes X D (u.manifest X w.engine w.store.view.nowSecs) (u.accepted w.engine)

section
variable {w : World} {s : Spec} (h : Sim X D w s) (u : SessionCalls)
  (hD : ∀ p, p <:+: u.accepted w.engine → p ∈ D)
include h hD

/-- What is on disk once the process has ended. -/
theorem Sim.left_crash (crash : Crash) {st : Store}
    (hst : left (w.engine.storeSession X u { w.store with io := crash.io }) = st) :
    (lens X true).healthy st ∧ Sound X D st.view (needOf w.sessions) ∧
      (st.index.manifests = w.store.index.manifests ∨ Stores X D w u ∧
        st.index.manifests = w.store.index.manifests.insert u.key
          (u.manifest X w.engine w.store.view.nowSecs)) := by
  subst hst
  have hw : (lens X true).healthy { w.store with io := crash.io } := h.healthy
  cases hb : Spec.mayBegin w.engine u.key with
  | error e =>
    obtain ⟨st, h1, h2, h3⟩ := does_storeSession_error (X := X) hb _ hw rfl
    rw [h1, left_result]
    refine ⟨h2, ?_, .inl (congrArg (fun v => v.index.manifests) h3)⟩
    rw [show st.view = _ from h3]
    exact h.sound.frame rfl rfl
  | ok _ =>
    obtain ⟨c', h1, h2, h3, h4⟩ := h.stops_storeSession u hb hD crash.compacts
    obtain ⟨g1, g2⟩ := h1.left_safe (n := crash.operations) hw rfl fun m =>
      ⟨h2.frame rfl rfl, .inr h3⟩
    refine ⟨g1, g2.sound, ?_⟩
    rcases g2.manifests with hold | hnew
    · exact .inl hold
    · exact .inr ⟨⟨hb, h4⟩, hnew⟩

/-- **A crash of a session stores its object or does nothing**, and all open sessions are gone. -/
theorem Sim.crashed (hX : X.Lawful) (crash : Crash) (hsize : 0 < crash.engine.chunkSize) :
    ∃ objects, Sim X D (w.crashed X u crash) ⟨crash.engine, objects, ∅⟩ ∧
      (objects = s.objects ∧
          (w.crashed X u crash).store.index.manifests = w.store.index.manifests ∨
        Stores X D w u ∧ objects = s.objects.insert u.key (u.accepted w.engine) ∧
          (w.crashed X u crash).store.index.manifests = w.store.index.manifests.insert u.key
            (u.manifest X w.engine w.store.view.nowSecs)) := by
  obtain ⟨st, hst⟩ : ∃ st, left (w.engine.storeSession X u { w.store with io := crash.io }) = st :=
    ⟨_, rfl⟩
  obtain ⟨hhealthy, hsound, hman⟩ := h.left_crash u hD crash hst
  let w2 : World := { w with store := { st with io := Stream'.const .ok } }
  have hw2 : (lens X true).healthy w2.store := hhealthy
  have hrun : w.crashed X u crash = (w2.step X (.reopen crash.engine crash.durability)).1 := by
    rw [World.crashed, completed_eq]
    simp only [hst, w2]
  have hsim : ∀ objects, FinMap.Rels (Describes X D) st.index.manifests objects →
      Sim X D w2 { s with objects } := fun objects ho =>
    { h with
      healthy := hhealthy
      calm := rfl
      sound := hsound.frame rfl rfl
      objects := ho }
  have hreopen : ∀ objects, FinMap.Rels (Describes X D) st.index.manifests objects →
      Sim X D (w.crashed X u crash) ⟨crash.engine, objects, ∅⟩ ∧
        (w.crashed X u crash).store.index.manifests = st.index.manifests := fun objects ho => by
    have hfollows := ((hsim objects ho).reopen hX crash.engine crash.durability hsize).1
    rw [hrun]
    exact ⟨hfollows, congrArg IndexState.manifests (step_reopen_index hX hw2 _ _)⟩
  rcases hman with hold | ⟨hstores, hnew⟩
  · obtain ⟨h1, h2⟩ := hreopen s.objects (hold ▸ h.objects)
    exact ⟨_, h1, .inl ⟨rfl, h2.trans hold⟩⟩
  · obtain ⟨h1, h2⟩ := hreopen (s.objects.insert u.key (u.accepted w.engine))
      (hnew ▸ h.objects.insert u.key hstores.described)
    exact ⟨_, h1, .inr ⟨hstores, rfl, h2.trans hnew⟩⟩

end

/-! ## Histories -/

/-- The same engine and the same uploads. -/
structure Spec.SameUploads (s r : Spec) : Prop where
  engine : s.engine = r.engine
  uploads : s.uploads = r.uploads

theorem Spec.SameUploads.objects {s r : Spec} (h : s.SameUploads r)
    (objects objects' : ExtTreeMap String Bytes) :
    Spec.SameUploads { s with objects } { r with objects := objects' } := ⟨h.engine, h.uploads⟩

/-- Calls that have to do with objects alone. -/
theorem Spec.step_store (s : Spec) (key : String) (data : Bytes) (contentType : String)
    (metadata : List (String × String)) :
    ∃ objects, (s.step (.store key data contentType metadata)).1 = { s with objects } := by
  rw [Spec.step]
  split
  · exact ⟨s.objects, rfl⟩
  · exact ⟨s.objects, rfl⟩
  · exact ⟨_, rfl⟩

theorem Spec.step_rename (s : Spec) (fromKey toKey : String) :
    ∃ objects, (s.step (.rename fromKey toKey)).1 = { s with objects } := by
  rw [Spec.step]
  split
  · exact ⟨s.objects, rfl⟩
  · exact ⟨_, rfl⟩

/-- What uploads receive does not depend on the objects. -/
theorem Spec.SameUploads.step {s r : Spec} (h : s.SameUploads r) (call : Call) :
    (s.step call).1.SameUploads (r.step call).1 := by
  cases call with
  | store key data contentType metadata =>
    obtain ⟨objects, hs⟩ := s.step_store key data contentType metadata
    obtain ⟨objects', hr⟩ := r.step_store key data contentType metadata
    rw [hs, hr]
    exact h.objects _ _
  | rename fromKey toKey =>
    obtain ⟨objects, hs⟩ := s.step_rename fromKey toKey
    obtain ⟨objects', hr⟩ := r.step_rename fromKey toKey
    rw [hs, hr]
    exact h.objects _ _
  | read key =>
    rw [s.step_read, r.step_read]
    exact h
  | begin handle key contentType metadata =>
    rw [Spec.step, Spec.step, h.engine, h.uploads]
    split
    · exact h
    · split
      · exact h
      · exact ⟨rfl, rfl⟩
  | write handle data =>
    rw [Spec.step, Spec.step, h.uploads]
    split
    · exact h
    · split
      · exact h
      · exact ⟨h.engine, rfl⟩
  | finish handle =>
    rw [Spec.step, Spec.step, h.uploads]
    split
    · exact h
    · exact ⟨h.engine, rfl⟩
  | abort handle | drop handle =>
    rw [Spec.step, Spec.step, h.uploads]
    split
    · exact ⟨h.engine, rfl⟩
    · exact h
  | delete key => exact h.objects _ _
  | reopen engine durability => exact ⟨rfl, rfl⟩
  | gc grace | compact | tick now => exact h

theorem Spec.SameUploads.received {s r : Spec} (h : s.SameUploads r) (call : Call) :
    s.received call = r.received call := by
  cases call with
  | write handle data => rw [Spec.received, Spec.received, h.uploads]
  | _ => rfl

theorem Sim.event (hX : X.Lawful) {w : World} {s r : Spec} (h : Sim X D w s) (hr : s.SameUploads r)
    (e : Event) (hsized : e.Sized) (hD : ∀ p, p <:+: r.receivedWith e → p ∈ D) :
    ∃ s', Sim X D (w.event X e) s' ∧ s'.SameUploads (r.event e) := by
  cases e with
  | call call =>
    exact ⟨_, h.next hX call hsized (by rwa [hr.received]), hr.step call⟩
  | crash u crash =>
    have hengine : w.engine = r.engine := h.engine.symm.trans hr.engine
    obtain ⟨objects, hsim, -⟩ := h.crashed u (hengine ▸ hD) hX crash hsized
    exact ⟨_, hsim, rfl, rfl⟩

theorem Sim.after (hX : X.Lawful) : ∀ (events : List Event) {w : World} {s r : Spec}, Sim X D w s →
    s.SameUploads r → (∀ e ∈ events, e.Sized) → pieces (r.receivedOver events) ⊆ D →
    ∃ s', Sim X D (w.after X events) s' ∧ s'.SameUploads (events.foldl Spec.event r)
  | [], _, s, _, h, hr, _, _ => ⟨s, h, hr⟩
  | e :: events, _, _, _, h, hr, hsized, hD => by
    obtain ⟨s1, h1, hr1⟩ := h.event hX hr e (hsized e List.mem_cons_self) fun p hp =>
      hD ⟨_, List.mem_cons_self, hp⟩
    exact Sim.after hX events h1 hr1 (fun a ha => hsized a (List.mem_cons_of_mem _ ha))
      fun p ⟨b, hb, hp⟩ => hD ⟨b, List.mem_cons_of_mem _ hb, hp⟩

theorem Spec.receivedOver_append : ∀ (events more : List Event) (r : Spec),
    r.receivedOver (events ++ more)
      = r.receivedOver events ++ (events.foldl Spec.event r).receivedOver more
  | [], _, _ => rfl
  | e :: events, more, r =>
    congrArg (r.receivedWith e :: ·) (receivedOver_append events more (r.event e))

/-- The reply to a read of a map of objects. -/
def readReply (objects : ExtTreeMap String Bytes) (key : String) : Reply :=
  match objects[key]? with
  | none => .failed (.error (.notFound key))
  | some data => .bytes data

theorem Sim.reads (hinj : Set.InjOn X.sha256 D) {w : World} {s : Spec} (h : Sim X D w s)
    (key : String) :
    (w.step X (.read key)).2 = readReply s.objects key := by
  have hanswer := (h.read hinj key).2
  rw [Spec.step] at hanswer
  unfold readReply
  generalize (w.step X (.read key)).2 = reply at hanswer
  cases hk : s.objects[key]? with
  | none =>
    rw [hk] at hanswer
    cases reply <;> cases hanswer
    rfl
  | some data =>
    rw [hk] at hanswer
    cases reply <;> cases hanswer
    rfl

/-- Worlds with the same manifest and the same object under a key show the same there. -/
theorem Sim.object_eq (hinj : Set.InjOn X.sha256 D) {w w' : World}
    {s s' : Spec} (h : Sim X D w s) (h' : Sim X D w' s') {key : String}
    (hm : w'.store.index.manifests[key]? = w.store.index.manifests[key]?)
    (ho : s'.objects[key]? = s.objects[key]?) : w'.object X key = w.object X key := by
  rw [World.object, World.object, hm, h.reads hinj, h'.reads hinj, readReply, readReply, ho]

/-- The session, when the process outlives it, stores its object. -/
theorem Sim.completed {w : World} {s : Spec} (h : Sim X D w s) (u : SessionCalls)
    (hD : ∀ p, p <:+: u.accepted w.engine → p ∈ D)
    (hstores : Stores X D w u) :
    Sim X D (w.completed X u)
        { s with objects := s.objects.insert u.key (u.accepted w.engine) } ∧
      (w.completed X u).store.index.manifests = w.store.index.manifests.insert u.key
        (u.manifest X w.engine w.store.view.nowSecs) := by
  obtain ⟨c', h1, h2, h3, h4⟩ := h.does_storeSession u hstores.begins hD
  obtain ⟨st, g1, g2, rfl⟩ := h1 w.store h.healthy rfl
  rw [completed_eq, g1, left_result]
  refine ⟨?_, h4⟩
  exact { h with
    healthy := g2
    calm := h2
    sound := h3
    objects := h4 ▸ h.objects.insert u.key hstores.described }

/-- **A store session is crash-atomic.** After any history of calls and of sessions that the process
did not survive, whenever it ends during one more session, what the key shows is what it showed
before or the whole new object, every other key shows what it did, every object that is visible can
be read, and no chunk is short of references. -/
theorem store_crash_atomic (hX : X.Lawful) (engine : StorageEngine) (dataDir : String)
    (events : List Event) (u : SessionCalls) (crash : Crash) (hsize : 0 < engine.chunkSize)
    (hsized : ∀ e ∈ events, e.Sized) (hcrash : 0 < crash.engine.chunkSize)
    (hfree : Set.InjOn X.sha256
      (pieces ((Spec.fresh engine).receivedOver (events ++ [.crash u crash])))) :
    let w := (World.fresh engine dataDir (Stream'.const .ok)).after X events
    let w' := w.crashed X u crash
    (w'.object X u.key = w.object X u.key ∨
      w'.object X u.key = (w.completed X u).object X u.key ∧
        (w'.object X u.key).2 = .bytes (u.accepted w.engine)) ∧
    (∀ key, key ≠ u.key → w'.object X key = w.object X key) ∧
    (∀ key m, w'.store.index.manifests[key]? = some m → ∃ data : Bytes,
      (w'.step X (.read key)).2 = .bytes data ∧ data.length = m.totalSize) ∧
    ∀ id, w'.store.index.occurrences id ≤ w'.store.index.refCount id := by
  intro w w'
  rw [Spec.receivedOver_append] at hfree
  let texts := (Spec.fresh engine).receivedOver events
  let r := events.foldl Spec.event (Spec.fresh engine)
  let last := r.receivedOver [.crash u crash]
  obtain ⟨s, hw, hr⟩ := @Sim.after X (pieces (texts ++ last)) hX events _ _ _ (Sim.fresh hsize dataDir)
    ⟨rfl, rfl⟩ hsized fun p ⟨b, hb, hp⟩ => ⟨b, List.mem_append_left _ hb, hp⟩
  have hengine : w.engine = r.engine := hw.engine.symm.trans hr.engine
  have hD : ∀ p, p <:+: u.accepted w.engine → p ∈ pieces (texts ++ last) := fun p hp =>
    ⟨u.accepted r.engine, List.mem_append_right _ (List.mem_singleton_self _), hengine ▸ hp⟩
  obtain ⟨objects, hw', hcases⟩ := hw.crashed u hD hX crash hcrash
  refine ⟨?_, fun key hne => ?_, fun key m hm => ?_, fun id => ?_⟩
  · rcases hcases with ⟨rfl, hman⟩ | ⟨hstores, rfl, hman⟩
    · exact .inl (hw.object_eq hfree hw' (by rw [hman]) rfl)
    · obtain ⟨hdone, hman'⟩ := hw.completed u hD hstores
      refine .inr ⟨hdone.object_eq hfree hw' (by rw [hman, hman']) rfl, ?_⟩
      show (w'.step X (.read u.key)).2 = _
      rw [hw'.reads hfree, readReply, FinMap.get_insert, if_pos rfl]
  · rcases hcases with ⟨rfl, hman⟩ | ⟨-, rfl, hman⟩
    · exact hw.object_eq hfree hw' (by rw [hman]) rfl
    · refine hw.object_eq hfree hw' ?_ ?_
      · rw [hman, FinMap.get_insert, if_neg (Ne.symm hne)]
      · rw [FinMap.get_insert, if_neg (Ne.symm hne)]
  · obtain ⟨data, hdata⟩ := Option.isSome_iff_exists.1
      ((hw'.objects.isSome key).trans (by rw [hm]; rfl))
    obtain ⟨m', hm', hdesc⟩ := hw'.objects.some hdata
    cases hm.symm.trans hm'
    refine ⟨data, ?_, hdesc.total.symm⟩
    rw [hw'.reads hfree, readReply, hdata]
  · have hcount : (w'.store.index.occurrences id : Int) + needOf w'.sessions id
        ≤ w'.store.index.refCount id := hw'.sound.counts id
    have := needOf_nonneg w'.sessions id
    omega

/-- An object, and an upload that was lost to a crash after it had flushed its chunk, which is one
of the object's. -/
def lostUpload : List Event :=
  [.call (.store "a" [1, 4, 1, 5] "" []),
    .crash ⟨"b", "", [], [[4]]⟩ ⟨1, false, ⟨1, 0, true⟩, .none⟩]

/-- The new version of the object shares two chunks with the old one. -/
def overwrite : SessionCalls := ⟨"a", "text", [], [[2, 3], [1, 4]]⟩

theorem store_crash_atomic_overwrite :
    let w := (World.fresh ⟨1, 0, true⟩ "data" (Stream'.const .ok)).after Crates.reference lostUpload
    let w' := w.crashed Crates.reference overwrite ⟨6, true, ⟨2, 0, true⟩, .sync⟩
    w'.object Crates.reference "a" = w.object Crates.reference "a" ∨
      w'.object Crates.reference "a"
          = (w.completed Crates.reference overwrite).object Crates.reference "a" ∧
        (w'.object Crates.reference "a").2 = .bytes (overwrite.accepted w.engine) :=
  (store_crash_atomic Crates.reference_lawful ⟨1, 0, true⟩ "data" lostUpload overwrite
    ⟨6, true, ⟨2, 0, true⟩, .sync⟩ (by decide) (by simp [lostUpload, Event.Sized, Call.Sized])
    (by decide) (reference_free (by decide +kernel))).1

end KaidaDB
