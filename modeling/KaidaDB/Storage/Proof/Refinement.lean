import Mathlib.Data.List.Dedup
import Mathlib.Data.List.Infix
import KaidaDB.Crates.Reference
import KaidaDB.Storage.Proof.Calls
import KaidaDB.Storage.Spec

/-!
# The engine refines a map from keys to bytes

`Sim X D w s`: the world `w` shows the abstract state `s`: every manifest describes the object under
its key, every session has received the bytes of its upload, the store is sound for the references
the sessions hold, and the log rebuilds the index. Every call keeps it and returns the answer of
`Spec.step` (`Sim.step`), so every run from an empty directory does (`engine_refines_map`).
-/

namespace KaidaDB

open Std Effects

variable {X : Crates} {D : Set Bytes} {logged : Bool} {c : View} {need : ChunkId → Int}

/-! ## Delete and rename -/

theorem does_delete_none {key : String} (h : c.index.manifests[key]? = none) :
    Does (lens X logged) (StorageEngine.delete X key) c (.ok false) c := by
  refine Does.bind does_getManifest ?_
  rw [h]
  exact Does.pure false

/-- **Deleting an object.** Its references are dropped one by one before its manifest goes. -/
theorem does_delete (hc : c.Calm) (hs : Sound X D c need) {key : String} {m : MediaManifest}
    (h : c.index.manifests[key]? = some m) :
    ∃ c', Does (lens X logged) (StorageEngine.delete X key) c (.ok true) c' ∧ c'.Calm ∧
      Sound X D c' need ∧ c'.index.manifests = c.index.manifests.erase key ∧
      ∀ (hex : String) f, c'.files[hex]? = some f → c.files[hex]? = some f := by
  let c1 := m.chunks.foldl View.released c
  have hc1 : c1.Calm := calm_releases _ hc
  have hm1 : c1.index.manifests = c.index.manifests := releases_manifests _ _
  refine ⟨c1.applied (.deleteManifest key), ?_, hc1.applied _, ?_, ?_, fun hex f hf => ?_⟩
  · refine Does.bind does_getManifest ?_
    rw [h]
    refine Does.bind (does_releases does_releaseDeleted m.chunks hc) ?_
    exact Does.bind (does_deleteManifest (hc1.appends _) hc1.compact) (Does.pure true)
  · refine ((Sound.releases m.chunks hs).removed key).weaken fun a => ?_
    rw [hm1, h]
    show need a ≤ need a - m.chunks.count a + m.chunks.count a
    omega
  · show c1.index.manifests.erase key = _
    rw [hm1]
  · exact releases_files m.chunks c hf

/-- **Renaming an object.** The new manifest is put before the old one goes. -/
theorem does_rename (hc : c.Calm) (hs : Sound X D c need) {fromKey toKey : String}
    {m : MediaManifest} (hvalid : validateKey toKey = .ok ()) (hne : fromKey ≠ toKey)
    (hfrom : c.index.manifests[fromKey]? = some m) (hto : c.index.manifests[toKey]? = none) :
    ∃ m' c', Does (lens X logged) (StorageEngine.rename X fromKey toKey) c (.ok m') c' ∧
      c'.Calm ∧ Sound X D c' need ∧ m' = { m with key := toKey, updatedAt := c.nowSecs } ∧
      c'.index.manifests = (c.index.manifests.insert toKey m').erase fromKey ∧
      c'.files = c.files ∧ c'.clock = c.clock := by
  let m' : MediaManifest := { m with key := toKey, updatedAt := c.nowSecs }
  let c1 := c.applied (.putManifest m')
  have hc1 : c1.Calm := hc.applied _
  refine ⟨m', c1.applied (.deleteManifest fromKey), ?_, hc1.applied _, ?_, rfl, rfl, rfl, rfl⟩
  · rw [StorageEngine.rename, hvalid]
    refine Does.bind (Does.pure ()) ?_
    rw [if_neg hne]
    refine Does.bind does_getManifest ?_
    rw [hfrom]
    refine Does.bind does_getManifest ?_
    rw [hto]
    refine Does.bind does_nowSecs ?_
    refine Does.bind (does_putManifest (hc.appends _) hc.compact) ?_
    exact Does.bind (does_deleteManifest (hc1.appends _) hc1.compact) (Does.pure m')
  · refine ((hs.put m').removed fromKey).weaken fun a => ?_
    have h1 : c1.index.manifests[fromKey]? = some m := by
      show (c.index.manifests.insert toKey m')[fromKey]? = some m
      rw [FinMap.get_insert, if_neg (Ne.symm hne), hfrom]
    rw [h1, show c.index.manifests[m'.key]? = none from hto]
    show need a ≤ need a - m.chunks.count a + 0 + m.chunks.count a
    omega

/-- What makes a rename fail. -/
theorem does_rename_error {fromKey toKey : String} {e : Fail} {objects : ExtTreeMap String Bytes}
    (hobj : ∀ k : String, (objects[k]?).isSome = (c.index.manifests[k]?).isSome)
    (h : Spec.mayRename objects fromKey toKey = .error e) :
    Does (lens X logged) (StorageEngine.rename X fromKey toKey) c (.error e) c := by
  unfold Spec.mayRename at h
  unfold StorageEngine.rename
  cases hv : validateKey toKey with
  | error e' =>
    rw [hv] at h
    cases h
    exact Does.bind_error (Does.throw _)
  | ok u =>
    rw [hv] at h
    refine Does.bind (Does.pure ()) ?_
    dsimp only at h
    by_cases hne : fromKey = toKey
    · rw [if_pos hne] at h ⊢
      cases h
      exact Does.bind_error (Does.throw _)
    · rw [if_neg hne] at h ⊢
      refine Does.bind does_getManifest ?_
      have hfrom := hobj fromKey
      cases ho : objects[fromKey]? with
      | none =>
        rw [ho] at h hfrom
        cases h
        rw [Option.isNone_iff_eq_none.1 (Option.isSome_eq_false_iff.1 hfrom.symm)]
        exact Does.throw _
      | some d =>
        rw [ho] at h hfrom
        obtain ⟨m, hm⟩ := Option.isSome_iff_exists.1 hfrom.symm
        rw [hm]
        dsimp only at h
        by_cases hto : (objects[toKey]?).isSome = true
        · rw [if_pos hto] at h
          cases h
          refine Does.bind does_getManifest ?_
          rw [if_pos (by rw [← hobj toKey]; exact hto)]
          exact Does.bind_error (Does.throw _)
        · rw [if_neg hto] at h
          cases h

/-! ## Garbage collection -/

/-- The pass over the files removes files that are not indexed, and nothing else. -/
theorem does_gcFiles (indexed : List String) (now : Int) (grace : Nat) :
    ∀ (files : List (String × ChunkFile)) (report : GcReport) {c : View}, c.Calm →
      ∃ report' c', Does (lens X logged) (StorageEngine.gcFiles indexed now grace files report) c
        (.ok report') c' ∧ c'.Calm ∧ c'.index = c.index ∧
        (∀ (hex : String) f, c'.files[hex]? = some f → c.files[hex]? = some f) ∧
        ∀ hex ∈ indexed, c'.files[hex]? = c.files[hex]?
  | [], report, c, hc => ⟨report, c, Does.pure _, hc, rfl, fun _ _ h => h, fun _ _ => rfl⟩
  | (hex, file) :: rest, report, c, hc => by
    unfold StorageEngine.gcFiles
    by_cases hin : hex ∈ indexed
    · rw [if_pos hin]
      exact does_gcFiles indexed now grace rest report hc
    · rw [if_neg hin]
      by_cases hrec : StorageEngine.isRecent now file.mtime grace = true
      · rw [if_pos hrec]
        exact does_gcFiles indexed now grace rest
          { report with orphansSkipped := report.orphansSkipped + 1 } hc
      · rw [if_neg hrec]
        -- this one is removed
        have hc1 : View.Calm { c with files := c.files.erase hex, io := c.io.tail } :=
          hc.tail.trans hc
        obtain ⟨report', c', h1, h2, h3, h4, h5⟩ := does_gcFiles indexed now grace rest
          { report with orphansRemoved := report.orphansRemoved + 1 } hc1
        refine ⟨report', c', ?_, h2, h3, fun a f hf => ?_, fun a ha => ?_⟩
        · refine Does.bind does_nextPlan ?_
          rw [hc.remove]
          refine Does.bind (does_modifyFiles fun u hu => ?_) h1
          rw [show u.files = c.files from congrArg View.files hu]
        · have := h4 a f hf
          simp only [FinMap.get_erase] at this
          split_ifs at this
          exact this
        · have hne : hex ≠ a := fun he => hin (he ▸ ha)
          rw [h5 a ha]
          simp [hne]

/-- The pass over the index changes nothing, and meets only ids. -/
theorem does_gcDangling : ∀ (hexes : List String) (report : GcReport),
    (∀ hex ∈ hexes, ∃ id : ChunkId, hex = id.toHex) →
    ∃ report', Does (lens X logged) (StorageEngine.gcDangling hexes report) c (.ok report') c
  | [], report, _ => ⟨report, Does.pure _⟩
  | hex :: rest, report, h => by
    have hrest : ∀ a ∈ rest, ∃ id : ChunkId, a = id.toHex := fun a ha =>
      h a (List.mem_cons_of_mem _ ha)
    obtain ⟨id, rfl⟩ := h hex List.mem_cons_self
    unfold StorageEngine.gcDangling
    rw [ChunkId.fromHex_toHex]
    have hexists : Does (lens X logged) (BlobStore.chunkExists id) c _ c := does_chunkExists
    cases hx : c.files.contains id.toHex with
    | true =>
      obtain ⟨report', hr⟩ := does_gcDangling rest report hrest
      rw [hx] at hexists
      exact ⟨report', Does.bind hexists hr⟩
    | false =>
      obtain ⟨report', hr⟩ := does_gcDangling rest { report with dangling := report.dangling + 1 } hrest
      rw [hx] at hexists
      exact ⟨report', Does.bind hexists hr⟩

theorem mem_keys_iff {t : ExtTreeMap String ChunkLocation} {hex : String} :
    hex ∈ t.keys ↔ (t[hex]?).isSome := by
  rw [ExtTreeMap.mem_keys, ← ExtTreeMap.contains_iff_mem, FinMap.contains_iff]

/-- **Garbage collection** removes files that are not indexed, and nothing else. It keeps the store
sound and the index as it is. -/
theorem does_gc (hc : c.Calm) (hs : Sound X D c need) (grace : Nat) :
    ∃ report c', Does (lens X logged) (StorageEngine.gc grace) c (.ok report) c' ∧ c'.Calm ∧
      Sound X D c' need ∧ c'.index = c.index := by
  have hids : ∀ hex ∈ c.index.chunkLocations.keys, ∃ id : ChunkId, hex = id.toHex := by
    intro hex hhex
    obtain ⟨loc, hloc⟩ := Option.isSome_iff_exists.1 (mem_keys_iff.1 hhex)
    obtain ⟨f, hfile⟩ := Option.isSome_iff_exists.1 (hs.present hex loc hloc)
    obtain ⟨d, -, -, hd, -⟩ := hs.encoded hex f hfile
    exact ⟨_, hd⟩
  obtain ⟨report, c', h1, hc', hindex, hsub, hsame⟩ := does_gcFiles
    c.index.chunkLocations.keys c.clock grace
    (c.files.toList.filter fun p => p.1.utf8ByteSize = 64) {} hc
  obtain ⟨report', h6⟩ := does_gcDangling (c := c') c.index.chunkLocations.keys report hids
  have hhexes : Does (lens X logged) Index.chunkIdHexes c (.ok c.index.chunkLocations.keys) c :=
    Does.get_bind fun _ _ hv => hv ▸ Does.pure _
  have hfiles : Does (lens X logged) BlobStore.iterChunkFiles c
      (.ok (c.files.toList.filter fun p => p.1.utf8ByteSize = 64)) c :=
    Does.get_bind fun _ _ hv => hv ▸ Does.pure _
  refine ⟨report', c', Does.bind hhexes (Does.get_bind fun s _ hv => ?_), hc',
    ⟨hindex ▸ hs.counts, hindex ▸ hs.keyed, ?_, ?_⟩, hindex⟩
  · rw [show s.clock = c.clock from congrArg View.clock hv]
    exact Does.bind hfiles (Does.bind h1 h6)
  · intro hex loc hloc
    rw [hindex] at hloc
    rw [hsame hex (mem_keys_iff.2 (by rw [hloc]; rfl))]
    exact hs.present hex loc hloc
  · intro hex f hf
    exact hs.encoded hex f (hsub hex f hf)

/-! ## Worlds and abstract states -/

/-- The session that `begin_store` opens. -/
def StorageEngine.newSession (engine : StorageEngine) (key contentType : String)
    (metadata : List (String × String)) : StoreSession where
  chunkSize := engine.chunkSize
  maxObjectSize := engine.maxObjectSize
  key := key
  contentType := contentType
  metadata := metadata
  hasher := []
  totalSize := 0
  chunks := []
  buf := []
  referencedChunks := []

/-- What the open sessions hold. -/
def needOf (sessions : ExtTreeMap Nat StoreSession) (id : ChunkId) : Int :=
  FinMap.total (fun t => t.referencedChunks.count id) sessions

theorem needOf_nonneg (sessions : ExtTreeMap Nat StoreSession) (id : ChunkId) :
    0 ≤ needOf sessions id := Int.natCast_nonneg _

theorem needOf_get {sessions : ExtTreeMap Nat StoreSession} {handle : Nat} {t : StoreSession}
    (h : sessions[handle]? = some t) (id : ChunkId) :
    needOf (sessions.erase handle) id + t.holds id = needOf sessions id := by
  have := FinMap.total_erase (fun t : StoreSession => t.referencedChunks.count id) sessions handle
  rw [h, Option.elim_some] at this
  simp only [needOf, StoreSession.holds]
  omega

theorem needOf_insert (sessions : ExtTreeMap Nat StoreSession) (handle : Nat) (t : StoreSession)
    (id : ChunkId) :
    needOf (sessions.insert handle t) id = needOf (sessions.erase handle) id + t.holds id := by
  have h1 := FinMap.total_erase (fun t : StoreSession => t.referencedChunks.count id) sessions handle
  have h2 := FinMap.total_insert (fun t : StoreSession => t.referencedChunks.count id) sessions
    handle t
  simp only [needOf, StoreSession.holds]
  omega

theorem needOf_erase_le (sessions : ExtTreeMap Nat StoreSession) (handle : Nat) (id : ChunkId) :
    needOf (sessions.erase handle) id ≤ needOf sessions id := by
  have := FinMap.total_erase (fun t : StoreSession => t.referencedChunks.count id) sessions handle
  simp only [needOf]
  omega

/-- A session and the upload it carries out. -/
structure Uploads (X : Crates) (D : Set Bytes) (t : StoreSession) (u : Upload) : Prop where
  key : t.key = u.key
  limit : t.maxObjectSize = u.limit
  received : Receives X D t u.bytes

/-- The world shows the abstract state (module doc), and the pieces of the uploads are in `D`. -/
structure Sim (X : Crates) (D : Set Bytes) (w : World) (s : Spec) : Prop where
  engine : s.engine = w.engine
  sized : 0 < w.engine.chunkSize
  healthy : (lens X true).healthy w.store
  calm : w.store.view.Calm
  sound : Sound X D w.store.view (needOf w.sessions)
  objects : FinMap.Rels (Describes X D) w.store.index.manifests s.objects
  uploads : FinMap.Rels (Uploads X D) w.sessions s.uploads
  known : ∀ (handle : Nat) u, s.uploads[handle]? = some u → ∀ p, p <:+: u.bytes → p ∈ D

/-- The reply to the end of a call. -/
def replyOf {α : Type} (reply : α → Reply) : Except Fail α → Reply
  | .ok a => reply a
  | .error e => .failed e

/-- What a call on the engine does to a world. -/
theorem onEngine_of_does {α : Type} {w : World} {x : M α} {r : Except Fail α} {c' : View}
    (hw : (lens X logged).healthy w.store) (h : Does (lens X logged) x w.store.view r c')
    (reply : α → Reply) :
    ∃ st, w.onEngine x reply = ({ w with store := st }, replyOf reply r) ∧
      (lens X logged).healthy st ∧ st.view = c' := by
  obtain ⟨st, h1, h2, h3⟩ := h w.store hw rfl
  refine ⟨st, ?_, h2, h3⟩
  rw [World.onEngine, h1]
  cases r <;> rfl

/-- The step of the world follows the step of the abstract state. -/
def Follows (X : Crates) (D : Set Bytes) (w : World) (s : Spec) (call : Call) : Prop :=
  Sim X D (w.step X call).1 (s.step call).1 ∧ (w.step X call).2.answer = (s.step call).2

theorem Follows.intro {w w' : World} {s s' : Spec} {call : Call} {reply : Reply}
    {answer : Answer} (hw : w.step X call = (w', reply)) (hs : s.step call = (s', answer))
    (hsim : Sim X D w' s') (ha : reply.answer = answer) :
    Follows X D w s call := by
  unfold Follows
  rw [hw, hs]
  exact ⟨hsim, ha⟩

section
variable {w : World} {s : Spec} (h : Sim X D w s)
include h

/-- A store that shows the same view. -/
theorem Sim.sameView {st : Store} (hst : (lens X true).healthy st) (hv : st.view = w.store.view) :
    Sim X D { w with store := st } s :=
  { h with
    healthy := hst
    calm := show st.view.Calm from hv ▸ h.calm
    sound := show Sound X D st.view _ from hv ▸ h.sound
    objects := show FinMap.Rels _ st.view.index.manifests _ from hv ▸ h.objects }

/-- A call on the engine that ends in another view with other objects. -/
theorem Sim.onEngine {α : Type} {call : Call} {x : M α} {r : Except Fail α} {c' : View}
    {reply : α → Reply} {objects : ExtTreeMap String Bytes} {answer : Answer}
    (hw : w.step X call = w.onEngine x reply)
    (hs : s.step call = ({ s with objects }, answer))
    (hx : Does (lens X true) x w.store.view r c') (hc : c'.Calm)
    (hsound : Sound X D c' (needOf w.sessions))
    (ho : FinMap.Rels (Describes X D) c'.index.manifests objects)
    (ha : (replyOf reply r).answer = answer) :
    Follows X D w s call := by
  obtain ⟨st, h1, h2, rfl⟩ := onEngine_of_does h.healthy hx reply
  refine Follows.intro (hw.trans h1) hs ?_ ha
  exact { h with healthy := h2, calm := hc, sound := hsound, objects := ho }

theorem Sim.read (hinj : Set.InjOn X.sha256 D) (key : String) :
    Follows X D w s (.read key) := by
  cases ho : s.objects[key]? with
  | none =>
    have hx : Does (lens X true) (w.engine.read X key) w.store.view
        (.error (.error (.notFound key))) w.store.view := by
      refine Does.bind does_getManifest ?_
      rw [show w.store.view.index.manifests[key]? = none from h.objects.none ho]
      exact Does.throw _
    refine h.onEngine rfl ?_ hx h.calm h.sound h.objects rfl
    rw [Spec.step, ho]
    rfl
  | some d =>
    obtain ⟨m, hm, hd⟩ := h.objects.some ho
    have hx : Does (lens X true) (w.engine.read X key) w.store.view (.ok d) w.store.view :=
      does_read w.engine h.sound (needOf_nonneg _) hinj hm hd
    refine h.onEngine rfl ?_ hx h.calm h.sound h.objects rfl
    rw [Spec.step, ho]
    rfl

theorem Sim.delete (key : String) : Follows X D w s (.delete key) := by
  have hsome := h.objects.isSome key
  cases hm : w.store.index.manifests[key]? with
  | none =>
    rw [hm] at hsome
    have hnone : s.objects[key]? = none := Option.isNone_iff_eq_none.1
      (Option.isSome_eq_false_iff.1 hsome)
    refine h.onEngine rfl ?_ (does_delete_none hm) h.calm h.sound h.objects rfl
    rw [Spec.step, hnone, FinMap.erase_of_none hnone]
    rfl
  | some m =>
    rw [hm] at hsome
    obtain ⟨c', hx, hc, hs, hman, -⟩ := does_delete (X := X) h.calm h.sound hm
    refine h.onEngine rfl ?_ hx hc hs (hman ▸ h.objects.erase key) rfl
    rw [Spec.step, hsome]
    rfl

theorem Sim.rename (fromKey toKey : String) : Follows X D w s (.rename fromKey toKey) := by
  cases hmay : Spec.mayRename s.objects fromKey toKey with
  | error e =>
    have hx : Does (lens X true) (StorageEngine.rename X fromKey toKey) w.store.view (.error e)
        w.store.view := does_rename_error (fun k => h.objects.isSome k) hmay
    refine h.onEngine rfl ?_ hx h.calm h.sound h.objects rfl
    rw [Spec.step, hmay]
    rfl
  | ok d =>
    -- all four checks have passed
    have hpass : validateKey toKey = .ok () ∧ fromKey ≠ toKey ∧ s.objects[fromKey]? = some d ∧
        s.objects[toKey]? = none := by
      unfold Spec.mayRename at hmay
      split at hmay
      · cases hmay
      · rename_i hv
        split at hmay
        · cases hmay
        · rename_i hne
          split at hmay
          · cases hmay
          · rename_i d' hd'
            split at hmay
            · cases hmay
            · rename_i hto
              cases hmay
              exact ⟨hv, hne, hd', by simpa using hto⟩
    obtain ⟨hv, hne, hfrom, hto⟩ := hpass
    obtain ⟨m, hm, hd⟩ := h.objects.some hfrom
    obtain ⟨m', c', hx, hc, hs, hm', hman, -⟩ :=
      does_rename (X := X) h.calm h.sound hv hne hm (h.objects.none hto)
    have hd' : Describes X D m' d := by
      subst hm'
      exact ⟨hd.size, hd.chunks, hd.total, hd.checksum, hd.known⟩
    have hstep : s.step (.rename fromKey toKey)
        = ({ s with objects := (s.objects.insert toKey d).erase fromKey }, .stored toKey) := by
      rw [Spec.step, hmay]
    exact h.onEngine rfl hstep hx hc hs (hman ▸ (h.objects.insert toKey hd').erase fromKey)
      (by rw [hm']; rfl)

theorem Sim.gc (grace : Nat) : Follows X D w s (.gc grace) := by
  obtain ⟨report, c', hx, hc, hs, hidx⟩ := does_gc (X := X) h.calm h.sound grace
  exact h.onEngine rfl rfl hx hc hs (hidx ▸ h.objects) rfl

theorem Sim.compact : Follows X D w s .compact := by
  have hp : w.store.view.io.head.compact = none := by rw [h.calm]; rfl
  exact h.onEngine rfl rfl (does_compact hp) h.calm h.sound h.objects rfl

theorem Sim.tick (now : Int) : Follows X D w s (.tick now) :=
  Follows.intro rfl rfl { h with
    healthy := h.healthy, calm := h.calm, sound := h.sound.frame rfl rfl, objects := h.objects } rfl

theorem Sim.reopen (hX : X.Lawful) (engine : StorageEngine) (durability : Durability)
    (hsize : 0 < engine.chunkSize) : Follows X D w s (.reopen engine durability) := by
  obtain ⟨ha, hl⟩ := h.healthy
  obtain ⟨entries, hopen⟩ := (hl rfl).openWith hX durability
  have hsound : Sound X D { w.store.view with durability := durability } (needOf w.sessions) :=
    h.sound.frame rfl rfl
  refine Follows.intro (by rw [World.step, hopen]) rfl ?_ rfl
  exact {
    engine := rfl
    sized := hsize
    healthy := ⟨rfl, fun _ => hl rfl⟩
    calm := h.calm
    sound := hsound.weaken fun id => by
      show needOf ∅ id ≤ needOf w.sessions id
      exact (by simp [needOf] : needOf ∅ id = 0) ▸ needOf_nonneg _ _
    objects := h.objects
    uploads := FinMap.Rels.empty
    known := fun handle u hu => by simp at hu }

/-! ## Calls on sessions -/

omit h in
/-- `begin_store` touches nothing, and fails where no session may begin. -/
theorem beginStore_eq (engine : StorageEngine) (key contentType : String)
    (metadata : List (String × String)) (s : Store) :
    engine.beginStore key contentType metadata s = result ((Spec.mayBegin engine key).map fun _ =>
      engine.newSession key contentType metadata) s := by
  unfold Spec.mayBegin StorageEngine.beginStore
  cases validateKey key with
  | error e => rfl
  | ok u =>
    dsimp only
    split_ifs <;> rfl

omit h in
theorem small_of_mayBegin {engine : StorageEngine} {key : String}
    (hb : Spec.mayBegin engine key = .ok ()) : engine.chunkSize ≤ isizeMax := by
  unfold Spec.mayBegin at hb
  cases hv : validateKey key with
  | error e =>
    rw [hv] at hb
    cases hb
  | ok u =>
    rw [hv] at hb
    by_contra hbig
    dsimp only at hb
    rw [if_pos (Nat.lt_of_not_le hbig)] at hb
    cases hb

theorem does_beginStore {key : String} (contentType : String)
    (metadata : List (String × String)) {c : View} (hb : Spec.mayBegin w.engine key = .ok ()) :
    Does (lens X logged) (w.engine.beginStore key contentType metadata) c
        (.ok (w.engine.newSession key contentType metadata)) c ∧
      Receives X D (w.engine.newSession key contentType metadata) [] := by
  refine ⟨fun s hs hv => ⟨s, ?_, hs, hv⟩, ?_⟩
  · rw [beginStore_eq, hb]
    rfl
  · exact ⟨h.sized, small_of_mayBegin hb, rfl, Nat.dvd_zero _, h.sized, rfl, rfl, rfl,
      fun d hd => by simp [StorageEngine.newSession] at hd⟩

omit h in
theorem does_beginStore_error {engine : StorageEngine} {key : String} (contentType : String)
    (metadata : List (String × String)) {c : View} {e : Fail}
    (hb : Spec.mayBegin engine key = .error e) :
    Does (lens X logged) (engine.beginStore key contentType metadata) c (.error e) c := by
  refine fun s hs hv => ⟨s, ?_, hs, hv⟩
  rw [beginStore_eq, hb]
  rfl

/-- Both have the same handles. -/
theorem Sim.contains (handle : Nat) : s.uploads.contains handle = w.sessions.contains handle := by
  rw [Bool.eq_iff_iff, FinMap.contains_iff, FinMap.contains_iff, h.uploads.isSome handle]

theorem Sim.begin (handle : Nat) (key contentType : String) (metadata : List (String × String))
    (hnil : [] ∈ D) : Follows X D w s (.begin handle key contentType metadata) := by
  have hsame := h.contains handle
  by_cases hin : w.sessions.contains handle = true
  · have hstep : w.step X (.begin handle key contentType metadata) = (w, .badHandle) := by
      rw [World.step, if_pos hin]
    have hspec : s.step (.begin handle key contentType metadata) = (s, .badHandle) := by
      rw [Spec.step, if_pos (hsame.trans hin)]
    exact Follows.intro hstep hspec h rfl
  · have hs : ¬ s.uploads.contains handle = true := hsame ▸ hin
    have hfresh : w.sessions[handle]? = none := by simpa using hin
    cases hb : Spec.mayBegin w.engine key with
    | error e =>
      have hx : Does (lens X true) _ w.store.view _ _ :=
        does_beginStore_error contentType metadata hb
      obtain ⟨st, h1, h2, h3⟩ := hx w.store h.healthy rfl
      have hstep : w.step X (.begin handle key contentType metadata)
          = ({ w with store := st }, .failed e) := by
        rw [World.step, if_neg hin, h1]
        rfl
      have hspec : s.step (.begin handle key contentType metadata) = (s, .failed e) := by
        rw [Spec.step, if_neg hs, h.engine, hb]
      exact Follows.intro hstep hspec (h.sameView h2 h3) rfl
    | ok u =>
      let t := w.engine.newSession key contentType metadata
      obtain ⟨ht, hrec⟩ := does_beginStore h contentType metadata hb
      obtain ⟨st, h1, h2, h3⟩ := ht w.store h.healthy rfl
      have hstep : w.step X (.begin handle key contentType metadata)
          = ({ w with store := st, sessions := w.sessions.insert handle t }, .done) := by
        rw [World.step, if_neg hin, h1]
        rfl
      have hspec : s.step (.begin handle key contentType metadata)
          = ({ s with
            uploads := s.uploads.insert handle ⟨key, w.engine.maxObjectSize, []⟩ }, .done) := by
        rw [Spec.step, if_neg hs, h.engine, hb]
      refine Follows.intro hstep hspec ?_ rfl
      exact { h.sameView h2 h3 with
        sound := (h.sameView h2 h3).sound.weaken fun id => by
          rw [needOf_insert, FinMap.erase_of_none hfresh]
          simp [t, StoreSession.holds, StorageEngine.newSession]
        uploads := h.uploads.insert handle ⟨rfl, rfl, hrec⟩
        known := fun a u hu => by
          rw [FinMap.get_insert] at hu
          split_ifs at hu
          · cases hu
            intro p hp
            rw [List.infix_nil.1 hp]
            exact hnil
          · exact h.known a u hu }

theorem Sim.drop (handle : Nat) : Follows X D w s (.drop handle) := by
  have hsame := h.contains handle
  by_cases hin : w.sessions.contains handle = true
  · have hstep : w.step X (.drop handle)
        = ({ w with sessions := w.sessions.erase handle }, .done) := by
      rw [World.step, if_pos hin]
    have hspec : s.step (.drop handle) = ({ s with uploads := s.uploads.erase handle }, .done) := by
      rw [Spec.step, if_pos (hsame.trans hin)]
    refine Follows.intro hstep hspec ?_ rfl
    exact { h with
      sound := h.sound.weaken (needOf_erase_le _ _)
      uploads := h.uploads.erase handle
      known := fun a u hu => by
        rw [FinMap.get_erase] at hu
        split_ifs at hu
        exact h.known a u hu }
  · have hs : ¬ s.uploads.contains handle = true := hsame ▸ hin
    have hstep : w.step X (.drop handle) = (w, .badHandle) := by rw [World.step, if_neg hin]
    have hspec : s.step (.drop handle) = (s, .badHandle) := by rw [Spec.step, if_neg hs]
    exact Follows.intro hstep hspec h rfl

/-- Without its session, what is left holds the rest. -/
theorem Sim.others {handle : Nat} {t : StoreSession} (ht : w.sessions[handle]? = some t) :
    Sound X D w.store.view fun a => needOf (w.sessions.erase handle) a + t.holds a :=
  h.sound.weaken fun a => (needOf_get ht a).le

theorem Sim.write (handle : Nat) (data : Bytes)
    (hD : ∀ p, p <:+: s.received (.write handle data) → p ∈ D) :
    Follows X D w s (.write handle data) := by
  cases hu : s.uploads[handle]? with
  | none =>
    have hstep : w.step X (.write handle data) = (w, .badHandle) := by
      rw [World.step, h.uploads.none hu]
    have hspec : s.step (.write handle data) = (s, .badHandle) := by rw [Spec.step, hu]
    exact Follows.intro hstep hspec h rfl
  | some u =>
    obtain ⟨t, ht, hkey, hlimit, hrec⟩ := h.uploads.some hu
    by_cases hbig : u.limit ≠ 0 ∧ u.limit < u.bytes.length + data.length
    · -- too large: nothing is taken
      have hx : Does (sessionLens X true) (StoreSession.write X data) (t, w.store.view) _
          (t, w.store.view) := does_write_tooLarge hrec (hlimit.symm ▸ hbig)
      obtain ⟨⟨t1, st⟩, h1, h2, h3⟩ := hx (t, w.store) h.healthy rfl
      obtain ⟨rfl, hv⟩ := Prod.mk.inj h3
      have hstep : w.step X (.write handle data)
          = ({ w with store := st }, .failed (.error (.tooLarge
              s!"object exceeds max_object_size of {t1.maxObjectSize} bytes"))) := by
        rw [World.step, ht]
        dsimp only
        rw [h1]
        simp only [result_error, FinMap.insert_self ht]
      have hspec : s.step (.write handle data) = (s, .failed (.error (.tooLarge
          s!"object exceeds max_object_size of {t1.maxObjectSize} bytes"))) := by
        rw [Spec.step, hu]
        dsimp only
        rw [Spec.mayWrite, if_pos hbig, hlimit]
      exact Follows.intro hstep hspec (h.sameView h2 hv) rfl
    · have hinf : ∀ p, p <:+: u.bytes ++ data → p ∈ D := by
        rwa [Spec.received_write hu] at hD
      obtain ⟨t', c', hx, hc, hs, hrec', hset, hman, -⟩ := does_write h.calm
        (h.others ht) hrec hinf (hlimit.symm ▸ hbig)
      obtain ⟨⟨t1, st⟩, h1, h2, h3⟩ := hx (t, w.store) h.healthy rfl
      obtain ⟨rfl, rfl⟩ := Prod.mk.inj h3
      have hstep : w.step X (.write handle data)
          = ({ w with store := st, sessions := w.sessions.insert handle t1 }, .done) := by
        rw [World.step, ht]
        dsimp only
        rw [h1]
        rfl
      have hspec : s.step (.write handle data) = ({ s with
          uploads := s.uploads.insert handle { u with bytes := u.bytes ++ data } }, .done) := by
        rw [Spec.step, hu]
        dsimp only
        rw [Spec.mayWrite, if_neg hbig]
      refine Follows.intro hstep hspec ?_ rfl
      exact {
        engine := h.engine
        sized := h.sized
        healthy := h2
        calm := hc
        sound := hs.weaken fun id => (needOf_insert _ _ _ _).le
        objects := show FinMap.Rels _ (View.index _).manifests _ from hman ▸ h.objects
        uploads := h.uploads.insert handle ⟨(congrArg (fun p => p.2.2.1) hset).trans hkey,
          (congrArg (fun p => p.2.1) hset).trans hlimit, hrec'⟩
        known := fun a v hv => by
          rw [FinMap.get_insert] at hv
          split_ifs at hv
          · cases hv
            exact hinf
          · exact h.known a v hv }

/-- A call that ends a session. -/
theorem Sim.consume {α : Type} {call : Call} {handle : Nat} {t : StoreSession}
    {x : SM α} {a : α} {t' : StoreSession} {c' : View} {reply : α → Reply}
    {objects : ExtTreeMap String Bytes} {answer : Answer}
    (ht : w.sessions[handle]? = some t) (hw : w.step X call = w.consume handle x reply)
    (hs : s.step call = ({ s with objects, uploads := s.uploads.erase handle }, answer))
    (hx : Does (sessionLens X true) x (t, w.store.view) (.ok a) (t', c')) (hc : c'.Calm)
    (hsound : Sound X D c' (needOf (w.sessions.erase handle)))
    (ho : FinMap.Rels (Describes X D) c'.index.manifests objects)
    (ha : (reply a).answer = answer) : Follows X D w s call := by
  have hx' := does_withSession hx
  obtain ⟨st, h1, h2, rfl⟩ := onEngine_of_does (w := { w with
    sessions := w.sessions.erase handle }) h.healthy hx' reply
  have hstep : w.step X call = ({ w with
      store := st, sessions := w.sessions.erase handle }, reply a) := by
    rw [hw, World.consume, ht]
    exact h1
  refine Follows.intro hstep hs ?_ ha
  exact {
    engine := h.engine
    sized := h.sized
    healthy := h2
    calm := hc
    sound := hsound
    objects := ho
    uploads := h.uploads.erase handle
    known := fun b v hv => by
      rw [FinMap.get_erase] at hv
      split_ifs at hv
      exact h.known b v hv }

theorem Sim.finish (handle : Nat) :
    Follows X D w s (.finish handle) := by
  cases hu : s.uploads[handle]? with
  | none =>
    have hstep : w.step X (.finish handle) = (w, .badHandle) := by
      rw [World.step, World.consume, h.uploads.none hu]
    have hspec : s.step (.finish handle) = (s, .badHandle) := by rw [Spec.step, hu]
    exact Follows.intro hstep hspec h rfl
  | some u =>
    obtain ⟨t, ht, hkey, -, hrec⟩ := h.uploads.some hu
    obtain ⟨t', c', hx, hc, hs, hd, hman⟩ := does_finish h.calm (h.others ht) hrec (h.known handle u hu)
    have hspec : s.step (.finish handle) = ({ s with
        objects := s.objects.insert u.key u.bytes, uploads := s.uploads.erase handle },
        .stored u.key) := by
      rw [Spec.step, hu]
    refine h.consume ht rfl hspec hx hc hs ?_ (congrArg Answer.stored hkey)
    rw [hman, hkey]
    exact h.objects.insert u.key hd

theorem Sim.abort (handle : Nat) : Follows X D w s (.abort handle) := by
  cases hu : s.uploads[handle]? with
  | none =>
    have hs : ¬ s.uploads.contains handle = true := fun hc => by
      rw [FinMap.contains_iff, hu] at hc
      cases hc
    have hstep : w.step X (.abort handle) = (w, .badHandle) := by
      rw [World.step, World.consume, h.uploads.none hu]
    have hspec : s.step (.abort handle) = (s, .badHandle) := by rw [Spec.step, if_neg hs]
    exact Follows.intro hstep hspec h rfl
  | some u =>
    obtain ⟨t, ht, -⟩ := h.uploads.some hu
    obtain ⟨t', c', hx, hc, hs, hman⟩ := does_abort h.calm (h.others ht)
    have hspec : s.step (.abort handle)
        = ({ s with uploads := s.uploads.erase handle }, .done) := by
      rw [Spec.step, if_pos (by rw [FinMap.contains_iff, hu]; rfl)]
    exact h.consume ht rfl hspec hx hc hs (hman ▸ h.objects) rfl

/-- A `store` that is let in: begin, one write and finish. -/
theorem Sim.does_store (key : String) (data : Bytes) (contentType : String)
    (metadata : List (String × String)) (hb : Spec.mayBegin w.engine key = .ok ())
    (hfits : ¬ (w.engine.maxObjectSize ≠ 0 ∧ w.engine.maxObjectSize < ([] : Bytes).length + data.length))
    (hD : ∀ p, p <:+: data → p ∈ D) :
    ∃ (t : StoreSession) (now : Int) (c' : View),
      Does (lens X true) (w.engine.storeWithMetadata X key data contentType metadata) w.store.view
        (.ok (t.manifestOf X data now)) c' ∧
      t.settings = (w.engine.newSession key contentType metadata).settings ∧
      c'.Calm ∧ Sound X D c' (needOf w.sessions) ∧ Describes X D (t.manifestOf X data now) data ∧
      c'.index.manifests = w.store.index.manifests.insert key (t.manifestOf X data now) := by
  let t := w.engine.newSession key contentType metadata
  obtain ⟨hbegin, hrec⟩ := does_beginStore h contentType metadata (c := w.store.view) hb
  have hholds : Sound X D w.store.view fun a => needOf w.sessions a + t.holds a :=
    h.sound.weaken fun a => by simp [t, StoreSession.holds, StorageEngine.newSession]
  obtain ⟨t1, c1, hwrite, hc1, hs1, hrec1, hset, hman1, -⟩ := does_write h.calm hholds hrec hD hfits
  obtain ⟨t2, c2, hfinish, hc2, hs2, hd, hman2⟩ := does_finish hc1 hs1 hrec1 hD
  have hkey1 : t1.key = key := congrArg (fun p => p.2.2.1) hset
  refine ⟨t1, c1.nowSecs, c2, Does.bind hbegin (does_withSession (Does.bind hwrite hfinish)), hset,
    hc2, hs2, hd, ?_⟩
  rw [hman2, hman1, hkey1]
  rfl

theorem Sim.store (key : String) (data : Bytes) (contentType : String)
    (metadata : List (String × String)) (hD : ∀ p, p <:+: data → p ∈ D) :
    Follows X D w s (.store key data contentType metadata) := by
  cases hb : Spec.mayBegin w.engine key with
  | error e =>
    have hspec : s.step (.store key data contentType metadata) = (s, .failed e) := by
      rw [Spec.step, h.engine, hb]
    have hx : Does (lens X true) (w.engine.storeWithMetadata X key data contentType metadata)
        w.store.view (.error e) w.store.view :=
      Does.bind_error (does_beginStore_error contentType metadata hb)
    exact h.onEngine rfl hspec hx h.calm h.sound h.objects rfl
  | ok u =>
    by_cases hbig : w.engine.maxObjectSize ≠ 0 ∧
        w.engine.maxObjectSize < ([] : Bytes).length + data.length
    · let t := w.engine.newSession key contentType metadata
      obtain ⟨hbegin, hrec⟩ := does_beginStore h contentType metadata (c := w.store.view) hb
      have hspec : s.step (.store key data contentType metadata) = (s, .failed (.error (.tooLarge
          s!"object exceeds max_object_size of {t.maxObjectSize} bytes"))) := by
        rw [Spec.step, h.engine, hb, Spec.mayWrite, if_pos hbig]
        rfl
      have hwrite : Does (sessionLens X true) (StoreSession.write X data) (t, w.store.view) _
          (t, w.store.view) := does_write_tooLarge hrec hbig
      have hx : Does (lens X true) (w.engine.storeWithMetadata X key data contentType metadata)
          w.store.view _ w.store.view :=
        Does.bind hbegin (does_withSession (Does.bind_error hwrite))
      exact h.onEngine rfl hspec hx h.calm h.sound h.objects rfl
    · have hspec : s.step (.store key data contentType metadata)
          = ({ s with objects := s.objects.insert key data }, .stored key) := by
        rw [Spec.step, h.engine, hb, Spec.mayWrite, if_neg hbig]
      obtain ⟨t, now, c', hx, hset, hc, hs, hd, hman⟩ :=
        h.does_store key data contentType metadata hb hbig hD
      have hkey : t.key = key := congrArg (fun p => p.2.2.1) hset
      refine h.onEngine rfl hspec hx hc hs ?_ (congrArg Answer.stored hkey)
      rw [hman]
      exact h.objects.insert key hd

end

/-! ## Reads -/

theorem readChunk_agrees {s t : Store} {id : ChunkId}
    (h : (s.files[id.toHex]?).map ChunkFile.bytes = (t.files[id.toHex]?).map ChunkFile.bytes) :
    Agrees (BlobStore.readChunk X id) s t := by
  unfold BlobStore.readChunk
  cases ht : t.files[id.toHex]? with
  | none =>
    rw [ht, Option.map_none, Option.map_eq_none_iff] at h
    refine Agrees.get_bind (by rw [h, ht]) ?_
    rw [ht]
    exact Agrees.throw _
  | some f =>
    rw [ht, Option.map_some, Option.map_eq_some_iff] at h
    obtain ⟨g, hg, hbytes⟩ := h
    refine Agrees.get_bind (by rw [hg, ht]; dsimp only; rw [hbytes]) ?_
    rw [ht]
    dsimp only
    cases decodeChunk X f.bytes with
    | ok data => exact Agrees.pure data
    | error e => exact Agrees.throw e

theorem readChunks_agrees {s t : Store} : ∀ (ids : List ChunkId),
    (∀ id ∈ ids, (s.files[id.toHex]?).map ChunkFile.bytes = (t.files[id.toHex]?).map ChunkFile.bytes) →
    Agrees (StorageEngine.readChunks X ids) s t
  | [], _ => Agrees.pure _
  | id :: ids, h =>
    (readChunk_agrees (h id List.mem_cons_self)).bind fun _ _ =>
      (readChunks_agrees ids fun a ha => h a (List.mem_cons_of_mem _ ha)).bind fun _ _ =>
        Agrees.pure _

/-- A read depends on the manifest and the bytes of its chunk files alone, and changes nothing. -/
theorem read_agrees (engine : StorageEngine) {s t : Store} {key : String}
    (hm : s.index.manifests[key]? = t.index.manifests[key]?)
    (hf : ∀ m, t.index.manifests[key]? = some m → ∀ id ∈ m.chunks,
      (s.files[id.toHex]?).map ChunkFile.bytes = (t.files[id.toHex]?).map ChunkFile.bytes) :
    Agrees (engine.read X key) s t := by
  have hget : Agrees (Index.getManifest key) s t :=
    Agrees.get_bind (congrArg pure hm) (Agrees.pure _)
  refine hget.bind fun o ho => ?_
  have ho : s.index.manifests[key]? = o := (EStateM.Result.ok.inj ho).1
  cases o with
  | none => exact Agrees.throw _
  | some m =>
    refine (readChunks_agrees m.chunks (hf m (hm ▸ ho))).bind fun buf _ => ?_
    dsimp only
    split_ifs
    · exact (Agrees.throw _).bind fun _ _ => Agrees.pure _
    · exact Agrees.pure buf
    · exact Agrees.pure buf

theorem step_read (w : World) (key : String) : (w.step X (.read key)).1 = w := by
  obtain ⟨r, h, -⟩ := @read_agrees X w.engine w.store w.store key rfl
    fun _ _ _ _ => rfl
  rw [World.step, World.onEngine, h]
  cases r <;> rfl

theorem Spec.step_read (s : Spec) (key : String) : (s.step (.read key)).1 = s := by
  rw [Spec.step]
  split <;> rfl

/-! ## Every call and every run -/

/-- Calls other than reads follow the abstract ones whether or not ids collide. -/
theorem Sim.change (hX : X.Lawful) {w : World} {s : Spec} (h : Sim X D w s) (call : Call)
    (hread : ∀ key, call ≠ .read key) (hsized : call.Sized)
    (hD : ∀ p, p <:+: s.received call → p ∈ D) : Follows X D w s call := by
  cases call with
  | store key data contentType metadata => exact h.store key data contentType metadata hD
  | begin handle key contentType metadata =>
    exact h.begin handle key contentType metadata (hD [] (List.nil_infix))
  | write handle data => exact h.write handle data hD
  | finish handle => exact h.finish handle
  | abort handle => exact h.abort handle
  | drop handle => exact h.drop handle
  | read key => exact absurd rfl (hread key)
  | delete key => exact h.delete key
  | rename fromKey toKey => exact h.rename fromKey toKey
  | gc grace => exact h.gc grace
  | compact => exact h.compact
  | reopen engine durability => exact h.reopen hX engine durability hsized
  | tick now => exact h.tick now

/-- **Every call follows the abstract one.** -/
theorem Sim.step (hX : X.Lawful) (hinj : Set.InjOn X.sha256 D) {w : World} {s : Spec}
    (h : Sim X D w s) (call : Call) (hsized : call.Sized)
    (hD : ∀ p, p <:+: s.received call → p ∈ D) : Follows X D w s call := by
  by_cases hread : ∃ key, call = .read key
  · obtain ⟨key, rfl⟩ := hread
    exact h.read hinj key
  · exact h.change hX call (fun key he => hread ⟨key, he⟩) hsized hD

theorem Sim.run (hX : X.Lawful) (hinj : Set.InjOn X.sha256 D) :
    ∀ (calls : List Call) {w : World} {s : Spec}, Sim X D w s → (∀ call ∈ calls, call.Sized) →
      pieces (s.receivedIn calls) ⊆ D →
      Sim X D (w.run X calls).1 (s.run calls).1 ∧
        (w.run X calls).2.map Reply.answer = (s.run calls).2
  | [], _, _, h, _, _ => ⟨h, rfl⟩
  | call :: calls, w, s, h, hsized, hD => by
    obtain ⟨hsim, hans⟩ := h.step hX hinj call (hsized call List.mem_cons_self) fun p hp =>
      hD ⟨_, List.mem_cons_self, hp⟩
    obtain ⟨hsim', hans'⟩ := Sim.run hX hinj calls hsim
      (fun c hc => hsized c (List.mem_cons_of_mem _ hc)) fun p ⟨b, hb, hp⟩ =>
        hD ⟨b, List.mem_cons_of_mem _ hb, hp⟩
    exact ⟨hsim', congrArg₂ List.cons hans hans'⟩

/-- Without assumptions on ids a world still shows the next abstract state. -/
theorem Sim.next (hX : X.Lawful) {w : World} {s : Spec} (h : Sim X D w s) (call : Call)
    (hsized : call.Sized) (hD : ∀ p, p <:+: s.received call → p ∈ D) :
    Sim X D (w.step X call).1 (s.step call).1 := by
  by_cases hread : ∃ key, call = .read key
  · obtain ⟨key, rfl⟩ := hread
    rw [step_read, s.step_read]
    exact h
  · exact (h.change hX call (fun key he => hread ⟨key, he⟩) hsized hD).1

theorem Sim.run_univ (hX : X.Lawful) : ∀ (calls : List Call) {w : World} {s : Spec},
    Sim X Set.univ w s → (∀ call ∈ calls, call.Sized) → ∃ s', Sim X Set.univ (w.run X calls).1 s'
  | [], _, s, h, _ => ⟨s, h⟩
  | call :: calls, _, _, h, hsized =>
    Sim.run_univ hX calls (h.next hX call (hsized call List.mem_cons_self) fun _ _ => trivial)
      fun c hc => hsized c (List.mem_cons_of_mem _ hc)

/-- An engine on an empty directory shows the empty map. -/
theorem Sim.fresh {engine : StorageEngine} (hsize : 0 < engine.chunkSize) (dataDir : String) :
    Sim X D (.fresh engine dataDir (Stream'.const .ok)) (.fresh engine) where
  engine := rfl
  sized := hsize
  healthy := ⟨rfl, fun _ => ⟨[], rfl, rfl⟩⟩
  calm := rfl
  sound := by
    refine ⟨fun id => ?_, fun k m h => ?_, fun hex loc h => ?_, fun hex f h => ?_⟩
    · simp [World.fresh, Store.emptyDir, Store.view, IndexState.empty, IndexState.occurrences,
        IndexState.refCount, needOf]
    · simp [World.fresh, Store.emptyDir, Store.view, IndexState.empty] at h
    · simp [World.fresh, Store.emptyDir, Store.view, IndexState.empty] at h
    · simp [World.fresh, Store.emptyDir, Store.view] at h
  objects := FinMap.Rels.empty
  uploads := FinMap.Rels.empty
  known := fun handle u hu => by simp [Spec.fresh] at hu

theorem World.Reachable.sim (hX : X.Lawful) {w : World} (h : w.Reachable X) :
    ∃ s, Sim X Set.univ w s := by
  obtain ⟨engine, dataDir, calls, hsize, hsized, rfl⟩ := h
  exact Sim.run_univ hX calls (Sim.fresh hsize dataDir) hsized

/-- **The engine refines a map from keys to bytes.** In every run of calls from an empty directory
the replies are those of the map. -/
theorem engine_refines_map (hX : X.Lawful) (engine : StorageEngine) (dataDir : String)
    (calls : List Call) (hsize : 0 < engine.chunkSize) (hsized : ∀ call ∈ calls, call.Sized)
    (hfree : CollisionFree X engine calls) :
    ((World.fresh engine dataDir (Stream'.const .ok)).run X calls).2.map Reply.answer
      = ((Spec.fresh engine).run calls).2 :=
  (Sim.run hX hfree calls (Sim.fresh hsize dataDir) hsized subset_rfl).2

/-! ### A run -/

/-- One digest for each piece is enough to compare all of them. -/
theorem injOn_of_nodup {α : Type} {f : Bytes → α} {texts : List Bytes}
    (h : ((texts.flatMap fun b => b.tails.flatMap List.inits).dedup.map f).Nodup) :
    Set.InjOn f (pieces texts) := by
  have hmem : ∀ p ∈ pieces texts,
      p ∈ (texts.flatMap fun b => b.tails.flatMap List.inits).dedup := by
    rintro p ⟨b, hb, hp⟩
    obtain ⟨t, hpre, hsuf⟩ := List.infix_iff_prefix_suffix.1 hp
    exact List.mem_dedup.2 (List.mem_flatMap.2 ⟨b, hb, List.mem_flatMap.2
      ⟨t, (List.mem_tails t b).2 hsuf, (List.mem_inits p t).2 hpre⟩⟩)
  exact fun p hp q hq heq => List.inj_on_of_nodup_map h (hmem p hp) (hmem q hq) heq

/-- A text whose pieces do not collide. -/
def sampleText : Bytes := [2, 1, 2, 3, 1, 4, 1, 5]

theorem reference_free {texts : List Bytes} (h : ∀ b ∈ texts, b <:+: sampleText) :
    Set.InjOn Crates.reference.sha256 (pieces texts) := by
  have hinj : Set.InjOn Crates.reference.sha256 (pieces [sampleText]) :=
    injOn_of_nodup (by decide +kernel)
  refine hinj.mono fun p ⟨b, hb, hp⟩ => ?_
  exact ⟨sampleText, List.mem_singleton_self _, hp.trans (h b hb)⟩

/-- Two objects share a chunk that one of them loses, gains back and loses again; the last object,
of four chunks, shares one with an object that is deleted. -/
def sharedCalls : List Call :=
  [.store "a" [1, 2] "" [], .begin 0 "b" "" [], .write 0 [2], .delete "a", .finish 0,
    .reopen ⟨2, 0, true⟩ .none, .rename "b" "c", .begin 1 "d" "" [], .write 1 [2, 1, 2],
    .store "a" [2, 1] "" [], .write 1 [3, 1, 4, 1, 5], .delete "a", .finish 1, .read "c",
    .read "b", .read "d"]

theorem engine_refines_map_shared :
    ((World.fresh ⟨1, 0, true⟩ "data" (Stream'.const .ok)).run Crates.reference
      sharedCalls).2.map Reply.answer
      = [.stored "a", .done, .done, .deleted true, .stored "b", .done, .stored "c", .done, .done,
        .stored "a", .done, .deleted true, .stored "d", .bytes [2],
        .failed (.error (.notFound "b")), .bytes [2, 1, 2, 3, 1, 4, 1, 5]] := by
  have hfree : CollisionFree Crates.reference ⟨1, 0, true⟩ sharedCalls :=
    reference_free (by decide +kernel)
  have hsized : ∀ call ∈ sharedCalls, call.Sized := by simp [sharedCalls, Call.Sized]
  exact (engine_refines_map Crates.reference_lawful ⟨1, 0, true⟩ "data" sharedCalls (by decide)
    hsized hfree).trans (by decide +kernel)

end KaidaDB
