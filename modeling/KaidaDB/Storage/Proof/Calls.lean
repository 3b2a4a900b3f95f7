import KaidaDB.Storage.Engine
import KaidaDB.Storage.Proof.Sound

/-!
# What sessions and releases do when nothing fails

In a calm view no plan to come fails. There a release of any of the three kinds makes the view
`released`, a flush writes the buffered chunk and takes a reference on it, and the calls on a
session keep `Receives`: what the session has received is what it has hashed, in whole chunks, and
what it still buffers. `does_finish`: the manifest it writes describes what the session received.
-/

namespace KaidaDB

open Std Effects

variable {X : Crates} {D : Set Bytes} {logged : Bool} {c : View} {need : ChunkId → Int}

/-- No plan to come fails. -/
def View.Calm (c : View) : Prop := c.io = Stream'.const .ok

namespace View.Calm

variable (hc : c.Calm)
include hc

theorem tail : c.io.tail = c.io := by rw [hc]; rfl

theorem appends (sync : Bool) : c.Appends sync := .inl (by rw [hc]; rfl)

theorem compact : c.io.tail.head.compact ≠ some .afterRename := by
  rw [hc]
  exact (by decide : IoPlan.ok.compact ≠ some .afterRename)

theorem write : c.io.head.writeFails = false := by rw [hc]; rfl

theorem remove : c.io.head.removeFails = false := by rw [hc]; rfl

theorem applied_eq (e : LogEntry) : c.applied e = { c with index := applyEntry c.index e } := by
  rw [View.applied, hc.tail]

theorem applied (e : LogEntry) : (c.applied e).Calm := hc.tail.trans hc

theorem written (id : ChunkId) (d : Bytes) : (c.written X id d).Calm := by
  unfold View.written
  split_ifs
  · exact hc
  · exact hc.tail.trans hc

theorem released (id : ChunkId) : (c.released id).Calm := by
  unfold View.released View.unlinked
  split_ifs
  · exact hc.tail.trans hc
  · exact hc
  · exact hc

end View.Calm

/-! ## Releases -/

theorem does_decrement (hc : c.Calm) (id : ChunkId) :
    Does (lens X logged) (Index.decrementChunkRef X id) c (.ok (lastRef c.index id))
      { c with index := c.index.dropRef id } := by
  unfold IndexState.dropRef
  cases h : droppedRef c.index id with
  | none =>
    have hlast : lastRef c.index id = false := by
      rw [lastRef, Option.map_eq_none_iff.1 h]
      rfl
    rw [hlast]
    exact does_decrementChunkRef_none h
  | some op =>
    have hd : Does (lens X logged) _ c _ _ := does_decrementChunkRef h (hc.appends _)
    rwa [hc.applied_eq] at hd

/-- Decrement, and unlink with the last reference. -/
theorem does_release (hc : c.Calm) (id : ChunkId) {unlink : M Unit}
    (hu : ∀ c : View, c.Calm → Does (lens X logged) unlink c (.ok ()) (c.unlinked id)) :
    Does (lens X logged) (do if ← Index.decrementChunkRef X id then unlink) c (.ok ())
      (c.released id) := by
  refine Does.bind (does_decrement hc id) ?_
  unfold View.released
  cases h : lastRef c.index id with
  | true => exact hu _ hc
  | false => exact Does.pure ()

theorem does_releaseDeleted (hc : c.Calm) (id : ChunkId) :
    Does (lens X logged) (StorageEngine.releaseDeleted X id) c (.ok ()) (c.released id) :=
  does_release hc id fun _ hc' => does_deleteChunk hc'.remove

theorem does_releaseReplaced (hc : c.Calm) (id : ChunkId) :
    Does (lens X logged) (StoreSession.releaseReplaced X id) c (.ok ()) (c.released id) :=
  does_release hc id fun _ hc' => does_ignoreError_ok (does_deleteChunk hc'.remove)

theorem does_releaseAborted (hc : c.Calm) (id : ChunkId) :
    Does (lens X logged) (StoreSession.releaseAborted X id) c (.ok ()) (c.released id) :=
  does_ignoreError_ok
    (does_release hc id fun _ hc' => does_ignoreError_ok (does_deleteChunk hc'.remove))

/-- A loop over chunks. -/
theorem does_releases {f : ChunkId → M Unit}
    (hf : ∀ {c : View}, c.Calm → ∀ id, Does (lens X logged) (f id) c (.ok ()) (c.released id)) :
    ∀ (ids : List ChunkId) {c : View}, c.Calm →
      Does (lens X logged) (ids.forM f) c (.ok ()) (ids.foldl View.released c)
  | [], _, _ => Does.pure ()
  | id :: ids, _, hc => Does.bind (hf hc id) (does_releases hf ids (hc.released id))

theorem calm_releases : ∀ (ids : List ChunkId) {c : View}, c.Calm →
    (ids.foldl View.released c).Calm
  | [], _, hc => hc
  | id :: ids, _, hc => calm_releases ids (hc.released id)

theorem Sound.releases : ∀ (ids : List ChunkId) {c : View} {need : ChunkId → Int},
    Sound X D c need → Sound X D (ids.foldl View.released c) fun a => need a - ids.count a
  | [], _, _, h => h.weaken fun a => by simp
  | id :: ids, _, _, h => (Sound.releases ids (h.released id)).weaken fun a => by
    rw [List.count_cons]
    by_cases ha : id = a
    · simp only [ha, beq_self_eq_true, if_true]
      omega
    · simp [ha]

theorem releases_manifests : ∀ (ids : List ChunkId) (c : View),
    (ids.foldl View.released c).index.manifests = c.index.manifests
  | [], _ => rfl
  | id :: ids, c => by
    rw [List.foldl_cons, releases_manifests ids, released_index, dropRef_manifests]

/-- Dropping references only removes files. -/
theorem releases_files : ∀ (ids : List ChunkId) (c : View) {hex : String} {f : ChunkFile},
    (ids.foldl View.released c).files[hex]? = some f → c.files[hex]? = some f
  | [], _, _, _, h => h
  | id :: ids, c, hex, _, h => by
    have hrest := releases_files ids (c.released id) h
    rw [released_files] at hrest
    split_ifs at hrest
    exact hrest

/-! ## Programs on a session -/

/-- A session and the view of the store. -/
def sessionLens (X : Crates) (logged : Bool) : Lens (StoreSession × Store) (StoreSession × View) where
  healthy p := (lens X logged).healthy p.2
  view p := (p.1, p.2.view)

theorem does_onStore {α : Type} {x : M α} {r : Except Fail α} {c' : View} {t : StoreSession}
    (h : Does (lens X logged) x c r c') :
    Does (sessionLens X logged) (onStore x) (t, c) r (t, c') := by
  rintro ⟨t', s⟩ hs hv
  obtain ⟨rfl, hv'⟩ := Prod.mk.inj hv
  obtain ⟨s', h1, h2, h3⟩ := h s hs hv'
  refine ⟨(t', s'), ?_, h2, by rw [← h3]; rfl⟩
  simp only [onStore, h1]
  cases r <;> rfl

theorem does_onSession {t : StoreSession} (f : StoreSession → StoreSession) :
    Does (sessionLens X logged) (onSession f) (t, c) (.ok ()) (f t, c) := by
  rintro ⟨t', s⟩ hs hv
  obtain ⟨rfl, rfl⟩ := Prod.mk.inj hv
  exact ⟨(f t', s), rfl, hs, rfl⟩

theorem does_withSession {α : Type} {x : SM α} {r : Except Fail α} {c' : View}
    {t t' : StoreSession} (h : Does (sessionLens X logged) x (t, c) r (t', c')) :
    Does (lens X logged) (withSession t x) c r c' := by
  intro s hs hv
  obtain ⟨⟨t1, s'⟩, h1, h2, h3⟩ := h (t, s) hs (by rw [← hv]; rfl)
  refine ⟨s', ?_, h2, (Prod.mk.inj h3).2⟩
  simp only [withSession, h1]
  cases r <;> rfl

/-- Reading the session. -/
theorem does_getSession {α : Type} {t : StoreSession} {f : StoreSession × Store → SM α}
    {r : Except Fail α} {p : StoreSession × View}
    (h : ∀ s : Store, Does (sessionLens X logged) (f (t, s)) (t, c) r p) :
    Does (sessionLens X logged) (get >>= f) (t, c) r p := by
  refine Does.get_bind ?_
  rintro ⟨t', s⟩ - hv
  obtain ⟨rfl, -⟩ := Prod.mk.inj hv
  exact h s

/-! ## Flushing -/

/-- The session after its buffer was flushed. -/
def StoreSession.flushed (X : Crates) (t : StoreSession) : StoreSession :=
  { t with
    buf := []
    referencedChunks := t.referencedChunks ++ [ChunkId.fromData X t.buf]
    hasher := t.hasher ++ t.buf
    totalSize := t.totalSize + t.buf.length
    chunks := t.chunks ++ [ChunkId.fromData X t.buf] }

/-- The view after a chunk was flushed. -/
def View.flushed (X : Crates) (c : View) (d : Bytes) : View :=
  let id := ChunkId.fromData X d
  (c.written X id d).applied
    (.putChunkLocation id.toHex
      (addedRef (c.written X id d).index id (BlobStore.chunkPath c.dataDir id)))

theorem does_flushChunk (hc : c.Calm) {t : StoreSession} (hne : t.buf ≠ []) :
    Does (sessionLens X logged) (StoreSession.flushChunk X) (t, c) (.ok ())
      (t.flushed X, c.flushed X t.buf) := by
  refine does_getSession fun s => ?_
  rw [if_neg hne]
  refine Does.bind (does_onSession _) ?_
  refine Does.bind (does_onStore (does_writeChunk hc.write)) ?_
  refine Does.bind (does_onStore (does_addChunkRef ((hc.written _ _).appends _))) ?_
  exact does_onSession _

theorem does_flushChunk_nil {t : StoreSession} (h : t.buf = []) :
    Does (sessionLens X logged) (StoreSession.flushChunk X) (t, c) (.ok ()) (t, c) := by
  refine does_getSession fun s => ?_
  rw [if_pos h]
  exact Does.pure ()

theorem Sound.flushed (h : Sound X D c need) {d : Bytes} (hd : d ∈ D)
    (hlen : d.length ≤ isizeMax) :
    Sound X D (c.flushed X d) fun a => need a + if ChunkId.fromData X d = a then 1 else 0 := by
  obtain ⟨h1, h2⟩ := h.written hd hlen
  exact h1.added h2

theorem View.Calm.flushed (hc : c.Calm) (d : Bytes) : (c.flushed X d).Calm :=
  (hc.written _ _).applied _

theorem flushed_manifests (c : View) (d : Bytes) :
    (c.flushed X d).index.manifests = c.index.manifests := by
  show (c.written X _ d).index.manifests = c.index.manifests
  rw [written_index]

theorem flushed_clock (c : View) (d : Bytes) : (c.flushed X d).clock = c.clock := by
  show (c.written X _ d).clock = c.clock
  unfold View.written
  split_ifs <;> rfl

/-! ## Sessions -/

/-- What a session `t` has received is `b`: the chunks it flushed and the start of the next. -/
structure Receives (X : Crates) (D : Set Bytes) (t : StoreSession) (b : Bytes) : Prop where
  size : 0 < t.chunkSize
  small : t.chunkSize ≤ isizeMax
  bytes : t.hasher ++ t.buf = b
  aligned : t.chunkSize ∣ t.hasher.length
  room : t.buf.length < t.chunkSize
  chunks : t.chunks = (Slices.slices t.chunkSize t.hasher).map (ChunkId.fromData X)
  held : t.referencedChunks = t.chunks
  total : t.totalSize = t.hasher.length
  known : ∀ d ∈ Slices.slices t.chunkSize t.hasher, d ∈ D

/-- The settings of a session, which no call on it changes. -/
def StoreSession.settings (t : StoreSession) :
    Nat × Nat × String × String × List (String × String) :=
  (t.chunkSize, t.maxObjectSize, t.key, t.contentType, t.metadata)

/-- Bytes that still fit the buffer. -/
theorem Receives.buffer {t : StoreSession} {b d : Bytes} (h : Receives X D t b)
    (hroom : t.buf.length + d.length < t.chunkSize) :
    Receives X D { t with buf := t.buf ++ d } (b ++ d) where
  size := h.size
  small := h.small
  bytes := by rw [← h.bytes, List.append_assoc]
  aligned := h.aligned
  room := by rw [List.length_append]; exact hroom
  chunks := h.chunks
  held := h.held
  total := h.total
  known := h.known

/-- Bytes that fill the buffer, which is flushed. -/
theorem Receives.fill {t : StoreSession} {b d : Bytes} (h : Receives X D t b)
    (hfull : t.buf.length + d.length = t.chunkSize) (hD : t.buf ++ d ∈ D) :
    Receives X D ({ t with buf := t.buf ++ d }.flushed X) (b ++ d) := by
  have hlen : (t.buf ++ d).length = t.chunkSize := by rw [List.length_append, hfull]
  have hne : t.buf ++ d ≠ [] := by
    intro h0
    have := h.size
    rw [h0] at hlen
    simp at hlen
    omega
  -- the hashed part is whole chunks, so the new chunk is the next slice
  have hslices : Slices.slices t.chunkSize (t.hasher ++ (t.buf ++ d))
      = Slices.slices t.chunkSize t.hasher ++ [t.buf ++ d] := by
    rw [Slices.slices_append h.size _ h.aligned, Slices.slices_short hne hlen.le]
  refine ⟨h.size, h.small, ?_, ?_, h.size, ?_, ?_, ?_, ?_⟩
  · show (t.hasher ++ (t.buf ++ d)) ++ [] = b ++ d
    rw [← h.bytes, List.append_nil, List.append_assoc]
  · show t.chunkSize ∣ (t.hasher ++ (t.buf ++ d)).length
    rw [List.length_append, hlen]
    exact (Nat.dvd_add_right h.aligned).2 (Nat.dvd_refl _)
  · show t.chunks ++ [_] = List.map _ (Slices.slices t.chunkSize (t.hasher ++ (t.buf ++ d)))
    rw [hslices, List.map_append, h.chunks]
    rfl
  · show t.referencedChunks ++ [_] = t.chunks ++ [_]
    rw [h.held]
  · show t.totalSize + (t.buf ++ d).length = (t.hasher ++ (t.buf ++ d)).length
    rw [@List.length_append _ t.hasher, h.total]
  · show ∀ p ∈ Slices.slices t.chunkSize (t.hasher ++ (t.buf ++ d)), p ∈ D
    rw [hslices]
    intro p hp
    rcases List.mem_append.1 hp with hp | hp
    · exact h.known p hp
    · rw [List.mem_singleton.1 hp]
      exact hD

/-- What a session has taken references on. -/
def StoreSession.holds (t : StoreSession) (id : ChunkId) : Int := t.referencedChunks.count id

theorem holds_flushed (t : StoreSession) (id : ChunkId) :
    (t.flushed X).holds id = t.holds id + if ChunkId.fromData X t.buf = id then 1 else 0 := by
  unfold StoreSession.holds StoreSession.flushed
  simp only [List.count_append, List.count_singleton, beq_iff_eq]
  split_ifs <;> simp

/-- A way to follow the programs that flush: `T x p p'` says that `x` succeeds from `p` and leads to
`p'`. What `flush` requires of a view is `Good` and the references the session holds. -/
structure FlushRules (X : Crates) (D : Set Bytes) (need : ChunkId → Int) (Good : View → Prop)
    (T : SM Unit → StoreSession × View → StoreSession × View → Prop) : Prop where
  done : ∀ p, T (pure ()) p p
  get : ∀ {f : StoreSession × Store → SM Unit} {t : StoreSession} {c : View} {p},
    (∀ s, T (f (t, s)) (t, c) p) → T (get >>= f) (t, c) p
  edit : ∀ {g : StoreSession → StoreSession} {f : Unit → SM Unit} {t : StoreSession} {c : View} {p},
    T (f ()) (g t, c) p → T (onSession g >>= f) (t, c) p
  flush : ∀ {n : Nat} {rest : Bytes} {t : StoreSession} {c : View} {p}, Good c →
    Sound X D c (fun a => need a + t.holds a) → t.buf ∈ D → t.buf.length ≤ isizeMax → t.buf ≠ [] →
    T (StoreSession.writeLoop X n rest) (t.flushed X, c.flushed X t.buf) p →
    T (StoreSession.flushChunk X >>= fun _ => StoreSession.writeLoop X n rest) (t, c) p
  flushed : ∀ {c : View} (d : Bytes), Good c → Good (c.flushed X d)

theorem Sound.flushed_holds {t : StoreSession} (h : Sound X D c fun a => need a + t.holds a)
    (hD : t.buf ∈ D) (hlen : t.buf.length ≤ isizeMax) :
    Sound X D (c.flushed X t.buf) fun a => need a + (t.flushed X).holds a :=
  (h.flushed hD hlen).weaken fun a => by
    rw [holds_flushed]
    exact (Int.add_assoc _ _ _).symm.le

/-- The loop of `write`, followed in any such way. -/
theorem FlushRules.writeLoop {Good : View → Prop}
    {T : SM Unit → StoreSession × View → StoreSession × View → Prop}
    (R : FlushRules X D need Good T) :
    ∀ (n : Nat) {data b : Bytes} {t : StoreSession} {c : View},
    data.length ≤ n → Good c → Sound X D c (fun a => need a + t.holds a) → Receives X D t b →
    (∀ p, p <:+: b ++ data → p ∈ D) →
    ∃ t' c', T (StoreSession.writeLoop X n data) (t, c) (t', c') ∧
      Good c' ∧ Sound X D c' (fun a => need a + t'.holds a) ∧ Receives X D t' (b ++ data) ∧
      t'.settings = t.settings ∧ c'.index.manifests = c.index.manifests ∧ c'.clock = c.clock
  | 0, data, b, t, c, hn, hc, hs, hr, _ => by
    have h0 : data = [] := List.eq_nil_of_length_eq_zero (by omega)
    subst h0
    refine ⟨t, c, ?_, hc, hs, by rwa [List.append_nil], rfl, rfl, rfl⟩
    exact R.done _
  | n + 1, data, b, t, c, hn, hc, hs, hr, hD => by
    by_cases h0 : data = []
    · subst h0
      refine ⟨t, c, ?_, hc, hs, by rwa [List.append_nil], rfl, rfl, rfl⟩
      exact R.done _
    · have hroom := hr.room
      have hpos : 0 < data.length := List.length_pos_iff.2 h0
      let k := min (t.chunkSize - t.buf.length) data.length
      have hk : 0 < k := by simp only [k]; omega
      have hdrop : (data.drop k).length ≤ n := by rw [List.length_drop]; omega
      have htake : (data.take k).length = k := List.length_take_of_le (Nat.min_le_right _ _)
      have hsplit : b ++ data = (b ++ data.take k) ++ data.drop k := by
        rw [List.append_assoc, List.take_append_drop]
      by_cases hfull : t.chunkSize ≤ (t.buf ++ data.take k).length
      · -- the buffer is full: its chunk is flushed
        have hlen : t.buf.length + (data.take k).length = t.chunkSize := by
          rw [List.length_append, htake] at hfull
          rw [htake]
          simp only [k] at hfull ⊢
          omega
        have hbuf : t.buf ++ data.take k ∈ D := by
          refine hD _ ⟨t.hasher, data.drop k, ?_⟩
          rw [← hr.bytes, List.append_assoc, List.append_assoc, List.take_append_drop,
            List.append_assoc]
        have hne : t.buf ++ data.take k ≠ [] := by
          intro h
          rw [h] at hfull
          have := hr.size
          simp at hfull
          omega
        let t1 : StoreSession := { t with buf := t.buf ++ data.take k }
        have hsmall : t1.buf.length ≤ isizeMax := by
          show (t.buf ++ data.take k).length ≤ isizeMax
          rw [List.length_append, hlen]
          exact hr.small
        have hs0 : Sound X D c fun a => need a + t1.holds a := hs
        obtain ⟨t', c', h1, h2, h3, h4, h5, h6, h7⟩ := R.writeLoop n hdrop
          (R.flushed t1.buf hc) (hs0.flushed_holds hbuf hsmall) (hr.fill hlen hbuf)
          (by rw [← hsplit]; exact hD)
        refine ⟨t', c', ?_, h2, h3, hsplit ▸ h4, h5, h6.trans (flushed_manifests c _),
          h7.trans (flushed_clock c _)⟩
        rw [StoreSession.writeLoop, if_neg h0]
        refine R.get fun s => R.edit (R.get fun s => ?_)
        rw [if_pos (show t.chunkSize ≤ (t.buf ++ data.take k).length from hfull)]
        exact R.flush (t := t1) hc hs0 hbuf hsmall hne h1
      · have hlen : t.buf.length + (data.take k).length < t.chunkSize := by
          rw [List.length_append] at hfull
          omega
        obtain ⟨t', c', h1, h2, h3, h4, h5, h6⟩ := R.writeLoop n hdrop hc hs
          (t := { t with buf := t.buf ++ data.take k }) (hr.buffer hlen)
          (by rw [← hsplit]; exact hD)
        refine ⟨t', c', ?_, h2, h3, hsplit ▸ h4, h5, h6⟩
        rw [StoreSession.writeLoop, if_neg h0]
        refine R.get fun s => R.edit (R.get fun s => ?_)
        rw [if_neg (show ¬ t.chunkSize ≤ (t.buf ++ data.take k).length from hfull)]
        exact h1

/-- What programs on a session do while nothing fails. -/
theorem does_rules : FlushRules X D need View.Calm fun x p p' =>
    Does (sessionLens X logged) x p (.ok ()) p' where
  done _ := Does.pure ()
  get h := does_getSession h
  edit h := Does.bind (does_onSession _) h
  flush hc _ _ _ hne h := Does.bind (does_flushChunk hc hne) h
  flushed d hc := hc.flushed d

/-- **Writing to a session.** -/
theorem does_writeLoop (n : Nat) {data b : Bytes} {t : StoreSession} {c : View}
    (hn : data.length ≤ n) (hc : c.Calm) (hs : Sound X D c fun a => need a + t.holds a)
    (hr : Receives X D t b) (hD : ∀ p, p <:+: b ++ data → p ∈ D) :
    ∃ t' c', Does (sessionLens X logged) (StoreSession.writeLoop X n data) (t, c) (.ok ()) (t', c') ∧
      c'.Calm ∧ Sound X D c' (fun a => need a + t'.holds a) ∧ Receives X D t' (b ++ data) ∧
      t'.settings = t.settings ∧ c'.index.manifests = c.index.manifests ∧ c'.clock = c.clock :=
  does_rules.writeLoop n hn hc hs hr hD

theorem Receives.written {t : StoreSession} {b : Bytes} (h : Receives X D t b) :
    t.bytesWritten = b.length := by
  rw [StoreSession.bytesWritten, h.total, ← h.bytes, List.length_append]

theorem does_write (hc : c.Calm) {t : StoreSession} {b data : Bytes}
    (hs : Sound X D c fun a => need a + t.holds a) (hr : Receives X D t b)
    (hD : ∀ p, p <:+: b ++ data → p ∈ D)
    (hfits : ¬ (t.maxObjectSize ≠ 0 ∧ t.maxObjectSize < b.length + data.length)) :
    ∃ t' c', Does (sessionLens X logged) (StoreSession.write X data) (t, c) (.ok ()) (t', c') ∧
      c'.Calm ∧ Sound X D c' (fun a => need a + t'.holds a) ∧ Receives X D t' (b ++ data) ∧
      t'.settings = t.settings ∧ c'.index.manifests = c.index.manifests ∧ c'.clock = c.clock := by
  obtain ⟨t', c', h1, h2⟩ := does_writeLoop data.length le_rfl hc hs hr hD
  refine ⟨t', c', does_getSession fun s => ?_, h2⟩
  dsimp only
  rw [hr.written, if_neg hfits]
  exact h1

theorem does_write_tooLarge {t : StoreSession} {b data : Bytes} (hr : Receives X D t b)
    (hbig : t.maxObjectSize ≠ 0 ∧ t.maxObjectSize < b.length + data.length) :
    Does (sessionLens X logged) (StoreSession.write X data) (t, c)
      (.error (.error (.tooLarge
        s!"object exceeds max_object_size of {t.maxObjectSize} bytes"))) (t, c) := by
  refine does_getSession fun s => ?_
  dsimp only
  rw [hr.written, if_pos hbig]
  exact Does.bind_error (Does.throw _)

/-! ## The end of a session -/

/-- The manifest of an object with contents `d`. -/
structure Describes (X : Crates) (D : Set Bytes) (m : MediaManifest) (d : Bytes) : Prop where
  size : 0 < m.chunkSize
  chunks : m.chunks = (Slices.slices m.chunkSize d).map (ChunkId.fromData X)
  total : m.totalSize = d.length
  checksum : m.checksum = String.ofList (hexEncode (X.sha256 d).toList)
  known : ∀ p ∈ Slices.slices m.chunkSize d, p ∈ D

/-- `now_secs` in a view. -/
def View.nowSecs (c : View) : Int := if c.clock < 0 then 0 else c.clock / 10 ^ 9

theorem does_nowSecs : Does (lens X logged) nowSecs c (.ok c.nowSecs) c :=
  Does.get_bind fun _ _ hv => hv ▸ Does.pure _

/-- The manifest of an object with contents `b` stored through the session. -/
def StoreSession.manifestOf (X : Crates) (t : StoreSession) (b : Bytes) (now : Int) :
    MediaManifest where
  key := t.key
  chunks := (Slices.slices t.chunkSize b).map (ChunkId.fromData X)
  totalSize := b.length
  chunkSize := t.chunkSize
  contentType := t.contentType
  checksum := String.ofList (hexEncode (X.sha256 b).toList)
  metadata := t.metadata
  createdAt := now
  updatedAt := now

/-- A session that is left with a chunk to flush: afterwards its chunks are those of what it has
received. -/
theorem Receives.last {t : StoreSession} {b : Bytes} (hr : Receives X D t b) (hne : t.buf ≠ [])
    (hbuf : t.buf ∈ D) :
    (t.flushed X).referencedChunks = (t.flushed X).chunks ∧
      (∀ now, StoreSession.manifest X (t.flushed X) now = t.manifestOf X b now) ∧
      ∀ p ∈ Slices.slices t.chunkSize b, p ∈ D := by
  have hslices : Slices.slices t.chunkSize b = Slices.slices t.chunkSize t.hasher ++ [t.buf] := by
    rw [← hr.bytes, Slices.slices_append hr.size _ hr.aligned, Slices.slices_short hne hr.room.le]
  refine ⟨?_, fun now => ?_, ?_⟩
  · show t.referencedChunks ++ [_] = t.chunks ++ [_]
    rw [hr.held]
  · have hchunks : t.chunks ++ [ChunkId.fromData X t.buf]
        = (Slices.slices t.chunkSize b).map (ChunkId.fromData X) := by
      rw [hslices, List.map_append, hr.chunks]
      rfl
    have htotal : t.totalSize + t.buf.length = b.length := by
      rw [hr.total, ← hr.bytes, List.length_append]
    rw [StoreSession.manifest, StoreSession.manifestOf, StoreSession.flushed, ← hchunks,
      ← htotal, ← hr.bytes]
  · rw [hslices]
    intro p hp
    rcases List.mem_append.1 hp with hp | hp
    · exact hr.known p hp
    · rw [List.mem_singleton.1 hp]
      exact hbuf

/-- A session that has flushed everything. -/
theorem Receives.whole {t : StoreSession} {b : Bytes} (hr : Receives X D t b) (h0 : t.buf = []) :
    (∀ now, StoreSession.manifest X t now = t.manifestOf X b now) ∧
      ∀ p ∈ Slices.slices t.chunkSize b, p ∈ D := by
  have hb : t.hasher = b := by rw [← hr.bytes, h0, List.append_nil]
  refine ⟨fun now => ?_, hb ▸ hr.known⟩
  rw [StoreSession.manifest, StoreSession.manifestOf, hr.chunks, hr.total, hb]

/-- What the flush that `finish` begins with leads to: `t'` and `c'` hold what `Good` and the rest
say, and the manifest of `t'` is that of `b`. -/
structure LastFlush (X : Crates) (D : Set Bytes) (need : ChunkId → Int) (Good : View → Prop)
    (t : StoreSession) (b : Bytes) (c : View) (t' : StoreSession) (c' : View) : Prop where
  good : Good c'
  sound : Sound X D c' fun a => need a + t'.holds a
  clock : c'.clock = c.clock
  manifests : c'.index.manifests = c.index.manifests
  held : t'.referencedChunks = t'.chunks
  manifest : ∀ now, StoreSession.manifest X t' now = t.manifestOf X b now
  known : ∀ p ∈ Slices.slices t.chunkSize b, p ∈ D

theorem LastFlush.nil {Good : View → Prop} (hc : Good c) {t : StoreSession} {b : Bytes}
    (hs : Sound X D c fun a => need a + t.holds a) (hr : Receives X D t b) (h0 : t.buf = []) :
    LastFlush X D need Good t b c t c :=
  ⟨hc, hs, rfl, rfl, hr.held, (hr.whole h0).1, (hr.whole h0).2⟩

theorem LastFlush.chunk {Good : View → Prop} {t : StoreSession} {b : Bytes}
    (hc : Good (c.flushed X t.buf)) (hs : Sound X D c fun a => need a + t.holds a)
    (hr : Receives X D t b) (hne : t.buf ≠ []) (hbuf : t.buf ∈ D) :
    LastFlush X D need Good t b c (t.flushed X) (c.flushed X t.buf) := by
  obtain ⟨hheld, hmanifest, hknown⟩ := hr.last hne hbuf
  exact ⟨hc, hs.flushed_holds hbuf (hr.room.le.trans hr.small), flushed_clock c _,
    flushed_manifests c _, hheld, hmanifest, hknown⟩

/-- The buffer is a piece of what the session has received. -/
theorem Receives.buffered {t : StoreSession} {b : Bytes} (hr : Receives X D t b) :
    t.buf <:+: b := ⟨t.hasher, [], by rw [List.append_nil, hr.bytes]⟩

/-- The session after the flush that `finish` begins with. -/
theorem does_lastFlush (hc : c.Calm) {t : StoreSession} {b : Bytes}
    (hs : Sound X D c fun a => need a + t.holds a) (hr : Receives X D t b)
    (hD : ∀ p, p <:+: b → p ∈ D) :
    ∃ t' c', Does (sessionLens X logged) (StoreSession.flushChunk X) (t, c) (.ok ()) (t', c') ∧
      LastFlush X D need View.Calm t b c t' c' := by
  by_cases h0 : t.buf = []
  · exact ⟨t, c, does_flushChunk_nil h0, .nil hc hs hr h0⟩
  · exact ⟨_, _, does_flushChunk hc h0, .chunk (hc.flushed _) hs hr h0 (hD _ hr.buffered)⟩

/-- The references of the manifest that is put are those the session held; the ones of the version
it replaces remain to be dropped. -/
theorem LastFlush.put {Good : View → Prop} {t t' : StoreSession} {b : Bytes} {c' : View}
    (h : LastFlush X D need Good t b c t' c') (now : Int) :
    Sound X D (c'.applied (.putManifest (t.manifestOf X b now))) fun a => need a
      + (c.index.manifests[t.key]?).elim 0 (fun old => old.chunks.count a) := by
  refine (h.sound.put _).weaken fun a => ?_
  have hheld : t'.holds a = (t.manifestOf X b now).chunks.count a := by
    rw [StoreSession.holds, h.held, ← h.manifest]
    rfl
  have hkey : (t.manifestOf X b now).key = t.key := rfl
  rw [h.manifests, hkey]
  omega

/-- **Committing a session.** The references it held are the manifest's afterwards, and those of the
version it replaces are dropped. -/
theorem does_finish (hc : c.Calm) {t : StoreSession} {b : Bytes}
    (hs : Sound X D c fun a => need a + t.holds a) (hr : Receives X D t b)
    (hD : ∀ p, p <:+: b → p ∈ D) :
    ∃ t' c', Does (sessionLens X logged) (StoreSession.finish X) (t, c)
        (.ok (t.manifestOf X b c.nowSecs)) (t', c') ∧
      c'.Calm ∧ Sound X D c' need ∧ Describes X D (t.manifestOf X b c.nowSecs) b ∧
      c'.index.manifests = c.index.manifests.insert t.key (t.manifestOf X b c.nowSecs) := by
  obtain ⟨t1, c1, hflush, h1⟩ := @does_lastFlush X D logged _ _ hc _ _ hs hr hD
  have hc1 : c1.Calm := h1.good
  let m := t.manifestOf X b c.nowSecs
  let c2 := c1.applied (.putManifest m)
  have hnow : c1.nowSecs = c.nowSecs := by rw [View.nowSecs, View.nowSecs, h1.clock]
  have hm1 : StoreSession.manifest X t1 c1.nowSecs = m := by rw [h1.manifest, hnow]
  have hdesc : Describes X D m b := ⟨hr.size, rfl, rfl, rfl, h1.known⟩
  have hs2 := h1.put c.nowSecs
  have hman2 : c2.index.manifests = c.index.manifests.insert t.key m := by
    show c1.index.manifests.insert m.key m = _
    rw [h1.manifests]
    rfl
  -- what the references of the version before leave behind
  let c3 := c.index.manifests[t.key]?.elim c2 fun old => old.chunks.foldl View.released c2
  have hend : c3.Calm ∧ Sound X D c3 need ∧ c3.index.manifests = c2.index.manifests := by
    show (c.index.manifests[t.key]?.elim c2 _).Calm ∧ Sound X D (c.index.manifests[t.key]?.elim c2 _)
      need ∧ (c.index.manifests[t.key]?.elim c2 _).index.manifests = _
    cases hold : c.index.manifests[t.key]? with
    | none =>
      rw [hold] at hs2
      exact ⟨hc1.applied _, hs2.weaken fun a => by simp, rfl⟩
    | some old =>
      rw [hold] at hs2
      exact ⟨calm_releases _ (hc1.applied _),
        (Sound.releases old.chunks hs2).weaken fun a => by simp, releases_manifests _ _⟩
  refine ⟨t1, c3, ?_, hend.1, hend.2.1, hdesc, hend.2.2.trans hman2⟩
  refine Does.bind hflush (does_getSession fun s => ?_)
  refine Does.bind (does_onStore does_nowSecs) ?_
  rw [hm1]
  refine Does.bind (does_onStore does_getManifest) ?_
  rw [h1.manifests]
  refine Does.bind (does_onStore (does_putManifest (hc1.appends _) hc1.compact)) ?_
  show Does (sessionLens X logged) _ _ _ (t1, c.index.manifests[t.key]?.elim c2 _)
  rw [show m.key = t.key from rfl]
  cases c.index.manifests[t.key]? with
  | none => exact Does.pure m
  | some old =>
    exact Does.bind
      (does_onStore (does_releases does_releaseReplaced old.chunks (hc1.applied _))) (Does.pure m)

theorem does_abort (hc : c.Calm) {t : StoreSession}
    (hs : Sound X D c fun a => need a + t.holds a) :
    ∃ t' c', Does (sessionLens X logged) (StoreSession.abort X) (t, c) (.ok ()) (t', c') ∧
      c'.Calm ∧ Sound X D c' need ∧ c'.index.manifests = c.index.manifests := by
  refine ⟨_, _, does_getSession fun s => Does.bind (does_onSession _)
    (does_onStore (does_releases does_releaseAborted t.referencedChunks hc)),
    calm_releases _ hc, (Sound.releases t.referencedChunks hs).weaken fun a => ?_,
    releases_manifests _ _⟩
  show need a ≤ need a + t.referencedChunks.count a - t.referencedChunks.count a
  omega

/-! ## Reading -/

theorem does_readChunk (hs : Sound X D c need) {id : ChunkId}
    (hpos : 0 < (c.index.occurrences id : Int) + need id) :
    ∃ d ∈ D, id = ChunkId.fromData X d ∧
      Does (lens X logged) (BlobStore.readChunk X id) c (.ok d) c := by
  obtain ⟨f, d, hf, hd, hid, hdec⟩ := hs.readable hpos
  refine ⟨d, hd, hid, Does.get_bind fun s _ hv => ?_⟩
  rw [show s.files = c.files from congrArg View.files hv, hf]
  simp only [hdec]
  exact Does.pure d

theorem does_readChunks (hs : Sound X D c need) (hinj : Set.InjOn X.sha256 D) :
    ∀ (ds : List Bytes), (∀ d ∈ ds, d ∈ D ∧
      0 < (c.index.occurrences (ChunkId.fromData X d) : Int) + need (ChunkId.fromData X d)) →
      Does (lens X logged) (StorageEngine.readChunks X (ds.map (ChunkId.fromData X))) c
        (.ok ds.flatten) c
  | [], _ => Does.pure _
  | d :: ds, h => by
    obtain ⟨hd, hpos⟩ := h d List.mem_cons_self
    obtain ⟨d', hd', hid, hread⟩ := does_readChunk hs hpos
    -- contents of the same id are the same
    have heq : d = d' := hinj hd hd' (congrArg ChunkId.bytes hid)
    subst heq
    exact Does.bind hread (Does.bind
      (does_readChunks hs hinj ds fun p hp => h p (List.mem_cons_of_mem _ hp)) (Does.pure _))

/-- **Reading a described object gives its contents.** -/
theorem does_read (engine : StorageEngine) (hs : Sound X D c need) (hneed : ∀ a, 0 ≤ need a)
    (hinj : Set.InjOn X.sha256 D) {key : String} {m : MediaManifest} {d : Bytes}
    (hm : c.index.manifests[key]? = some m) (hd : Describes X D m d) :
    Does (lens X logged) (engine.read X key) c (.ok d) c := by
  refine Does.bind does_getManifest ?_
  rw [hm]
  have hall : ∀ p ∈ Slices.slices m.chunkSize d, p ∈ D ∧
      0 < (c.index.occurrences (ChunkId.fromData X p) : Int) + need (ChunkId.fromData X p) := by
    intro p hp
    refine ⟨hd.known p hp, ?_⟩
    have hmem : ChunkId.fromData X p ∈ m.chunks := by
      rw [hd.chunks]
      exact List.mem_map_of_mem hp
    have := List.count_pos_iff.2 hmem
    have := count_le_occurrences hm (ChunkId.fromData X p)
    have := hneed (ChunkId.fromData X p)
    omega
  have hread : Does (lens X logged) _ c _ c := does_readChunks hs hinj _ hall
  rw [← hd.chunks, Slices.flatten_slices hd.size] at hread
  refine Does.bind hread ?_
  rw [← hd.checksum]
  simp only [ne_eq, not_true_eq_false, if_false]
  split_ifs
  · exact Does.pure d
  · exact Does.pure d

end KaidaDB
