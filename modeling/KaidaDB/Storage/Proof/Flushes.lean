import KaidaDB.Storage.SingleFault
import KaidaDB.Storage.Proof.Kept
import KaidaDB.Storage.Proof.Splits

/-!
# Sessions in which one operation fails

A session flushes the pieces of its object one after the other (`putBytes_wholes`), each with the
operations that `flushOps` counts, and if one of them fails it has taken references on the pieces
before (`attempts_flushEach`). `Tracked c0 ids c` is what holds of the index in between: next to that
of `c0` it has the references `ids`, which `abort` drops one by one until nothing is left of them
(`Tracked.releases`).
-/

namespace KaidaDB

open Effects

variable {X : Crates} {c c0 c' : View} {ids : List ChunkId}

/-- Writing a chunk leaves the other files as they are, and its own if it is there. -/
theorem written_files {hex : String} {f : ChunkFile} (h : c.files[hex]? = some f) (id : ChunkId)
    (d : Bytes) : (c.written X id d).files[hex]? = some f := by
  unfold View.written
  split_ifs with hin
  · exact h
  · simp only [FinMap.get_insert]
    split_ifs with hid
    · rw [FinMap.contains_iff, hid, h] at hin
      exact absurd rfl hin
    · exact h

/-! ## References on top of those of another index -/

/-- Next to what `c0` has there are the references `ids`; no file of a chunk that `c0` refers to is
gone. -/
structure Tracked (c0 : View) (ids : List ChunkId) (c : View) : Prop where
  manifests : c.index.manifests = c0.index.manifests
  counts : ∀ id, c.index.refCount id = c0.index.refCount id + ids.count id
  files : ∀ (id : ChunkId) f, 0 < c0.index.refCount id → c0.files[id.toHex]? = some f →
    c.files[id.toHex]? = some f

namespace Tracked

theorem refl (c : View) : Tracked c [] c := ⟨rfl, fun _ => rfl, fun _ _ _ h => h⟩

variable (h : Tracked c0 ids c)
include h

/-- Files may be added. -/
theorem frame (hi : c'.index = c.index)
    (hf : ∀ (hex : String) f, c.files[hex]? = some f → c'.files[hex]? = some f) :
    Tracked c0 ids c' where
  manifests := by rw [hi, h.manifests]
  counts id := by rw [hi, h.counts]
  files id f hpos hfile := hf _ _ (h.files id f hpos hfile)

theorem flushed (d : Bytes) : Tracked c0 (ids ++ [ChunkId.fromData X d]) (c.flushed X d) where
  manifests := (flushed_manifests c d).trans h.manifests
  counts id := by
    show (applyEntry (c.written X (ChunkId.fromData X d) d).index _).refCount id = _
    rw [refCount_put, refCount_addedRef, written_index, List.count_append, List.count_singleton]
    have hc := h.counts id
    simp only [beq_iff_eq]
    split_ifs with hid
    · subst hid
      omega
    · omega
  files id f hpos hfile := written_files (h.files id f hpos hfile) _ d

/-- The references are all there is between the counts. -/
theorem same_iff : (∀ id, c.index.refCount id = c0.index.refCount id) ↔ ids = [] := by
  refine ⟨fun hsame => List.eq_nil_iff_forall_not_mem.2 fun id hid => ?_, fun hnil id => ?_⟩
  · have hpos := List.count_pos_iff.2 hid
    have hc := h.counts id
    rw [hsame id] at hc
    omega
  · rw [h.counts id, hnil]
    rfl

end Tracked

/-- A reference dropped, and its file with the last. -/
theorem Tracked.released {id : ChunkId} (h : Tracked c0 (id :: ids) c) :
    Tracked c0 ids (c.released id) where
  manifests := by rw [released_index, dropRef_manifests, h.manifests]
  counts a := by
    have hc := h.counts a
    rw [released_index, refCount_dropRef]
    simp only [List.count_cons, beq_iff_eq] at hc
    split_ifs at hc ⊢ with ha
    · omega
    · omega
  files a f hpos hfile := by
    have hold := h.files a f hpos hfile
    have hc := h.counts a
    rw [released_files, if_neg]
    · exact hold
    · -- the reference is not the last, as `c0` has one besides
      rintro ⟨hlast, hid⟩
      obtain rfl := ChunkId.toHex_injective hid
      have := ((lastRef_iff _ _).1 hlast).2
      rw [List.count_cons_self] at hc
      omega

/-- **Dropping the references one by one leads back.** -/
theorem Tracked.releases (h : Tracked c0 ids c) : Tracked c0 [] (ids.foldl View.released c) := by
  induction ids generalizing c with
  | nil => exact h
  | cons id ids ih => exact ih h.released

/-! ## Operations, one of which may fail -/

/-- A store in whose operations one fault may lie ahead. -/
def faulty (X : Crates) : Faulty Fail Store View IoPlan where
  toLens := lens X false
  plans := View.io
  good := .ok
  err := ioError

/-- A session on such a store. -/
def sessionFaulty (X : Crates) : Faulty Fail (StoreSession × Store) (StoreSession × View) IoPlan where
  toLens := sessionLens X false
  plans p := p.2.io
  good := .ok
  err := ioError

section
variable {α : Type} {t : StoreSession} {k : Nat} {done : α → View → Prop} {failed : Nat → View → Prop}

theorem attempts_onStore {x : M α} (h : Attempts (faulty X) x c k done failed) :
    Attempts (sessionFaulty X) (onStore x) (t, c) k (fun a p => p.1 = t ∧ done a p.2)
      fun n p => p.1 = t ∧ failed n p.2 := by
  intro n fault hio
  rcases h n fault hio with ⟨a, c', n', fault', hx, hd, hp, hb, hpast⟩ | ⟨c', hx, hf, hrest⟩
  · exact .inl ⟨a, (t, c'), n', fault', does_onStore hx, ⟨rfl, hd⟩, hp, hb, hpast⟩
  · exact .inr ⟨(t, c'), does_onStore hx, ⟨rfl, hf⟩, hrest⟩

/-- Editing the session is no operation. -/
theorem attempts_edit {g : StoreSession → StoreSession} {f : Unit → SM α}
    {done : α → StoreSession × View → Prop} {failed : Nat → StoreSession × View → Prop}
    (h : Attempts (sessionFaulty X) (f ()) (g t, c) k done failed) :
    Attempts (sessionFaulty X) (onSession g >>= f) (t, c) k done failed := by
  intro n fault hio
  rcases h n fault hio with ⟨a, p, n', fault', hx, hd, hp, hb, hpast⟩ | ⟨p, hx, hrest⟩
  · exact .inl ⟨a, p, n', fault', (does_onSession g).bind hx, hd, hp, hb, hpast⟩
  · exact .inr ⟨p, (does_onSession g).bind hx, hrest⟩

end

theorem View.appends_or_fails (c : View) (sync : Bool) : c.Appends sync ∨ c.FailsAppend false sync := by
  cases h : c.io.head.append with
  | none => exact .inl (.inl h)
  | some fault =>
    cases fault with
    | write n => exact .inr (.inl ⟨n, h, fun h => by cases h⟩)
    | sync =>
      by_cases hs : sync = true ∧ c.durability = .sync
      · exact .inr (.inr ⟨rfl, h, hs⟩)
      · exact .inl (.inr ⟨h, hs⟩)

theorem View.FailsAppend.ne_ok {sync : Bool} (h : c.FailsAppend false sync) : c.io.head ≠ .ok := by
  intro hok
  rcases h with ⟨n, hn, -⟩ | ⟨-, hn, -⟩
  · rw [hok] at hn
    cases hn
  · rw [hok] at hn
    cases hn

theorem attempts_writeChunk (c : View) (id : ChunkId) (d : Bytes) :
    Attempts (faulty X) (BlobStore.writeChunk X id d) c (if c.files.contains id.toHex then 0 else 1)
      (fun path c' => path = BlobStore.chunkPath c.dataDir id ∧ c' = c.written X id d)
      fun _ c' => c'.index = c.index ∧ c'.files = c.files := by
  split_ifs with hin
  · have hsame : c.written X id d = c := if_pos hin
    exact Attempts.of_does (does_writeChunk_found hin) rfl ⟨rfl, hsame.symm⟩
  · refine Attempts.op ?_
    cases hw : c.io.head.writeFails with
    | false =>
      refine .inl ⟨_, _, does_writeChunk hw, ⟨rfl, rfl⟩, ?_⟩
      show (c.written X id d).io = c.io.tail
      rw [View.written, if_neg hin]
    | true =>
      refine .inr ⟨fun hok => ?_, _, does_writeChunk_error hin hw, ⟨rfl, rfl⟩, rfl⟩
      rw [show c.io.head = .ok from hok] at hw
      cases hw

theorem attempts_addChunkRef (c : View) (id : ChunkId) (path : String) :
    Attempts (faulty X) (Index.addChunkRef X id path) c 1
      (fun _ c' => c' = c.applied (.putChunkLocation id.toHex (addedRef c.index id path)))
      fun _ c' => c'.index = c.index ∧ c'.files = c.files := by
  refine Attempts.op ?_
  rcases c.appends_or_fails false with h | h
  · exact .inl ⟨_, _, does_addChunkRef h, rfl, rfl⟩
  · exact .inr ⟨h.ne_ok, _, does_addChunkRef_error h, ⟨rfl, rfl⟩, rfl⟩

/-! ## Flushing pieces -/

/-- Fills an empty buffer with a piece and flushes it. -/
def StoreSession.flushPiece (X : Crates) (d : Bytes) : SM Unit := do
  onSession fun s => { s with buf := d }
  StoreSession.flushChunk X

def StoreSession.flushEach (X : Crates) (ps : List Bytes) : SM Unit :=
  ps.forM (StoreSession.flushPiece X)

/-- Which chunk files there are. -/
def View.stored (c : View) (hex : String) : Bool := c.files.contains hex

theorem attempts_flushPiece {t : StoreSession} {d : Bytes} (hne : d ≠ []) :
    Attempts (sessionFaulty X) (StoreSession.flushPiece X d) (t, c)
      (if c.stored (ChunkId.fromData X d).toHex then 1 else 2)
      (fun _ p => p = ({ t with buf := d }.flushed X, c.flushed X d))
      fun _ p => p.1 = { t with buf := [] } ∧ p.2.index = c.index ∧
        ∀ (hex : String) f, c.files[hex]? = some f → p.2.files[hex]? = some f := by
  have hops : (if c.stored (ChunkId.fromData X d).toHex then 1 else 2)
      = (if c.files.contains (ChunkId.fromData X d).toHex then 0 else 1) + 1 := by
    unfold View.stored
    split_ifs <;> rfl
  rw [hops]
  refine attempts_edit (Attempts.congr (y := onSession (fun s => { s with buf := [] }) >>= fun _ =>
    onStore (BlobStore.writeChunk X (ChunkId.fromData X d) d) >>= fun path =>
    onStore (Index.addChunkRef X (ChunkId.fromData X d) path) >>= fun _ =>
    onSession fun s => s.addChunk (ChunkId.fromData X d) d) ?_ (attempts_edit ?_))
  · rintro ⟨t', s⟩ hv
    obtain ⟨rfl, -⟩ := Prod.mk.inj hv
    show (if d = [] then pure () else _ : SM Unit) ({ t with buf := d }, s) = _
    rw [if_neg hne]
  · refine Attempts.bind ((attempts_onStore (attempts_writeChunk c _ d)).mono (fun _ _ h => h) ?_) ?_
    · rintro n ⟨t', c'⟩ - ⟨rfl, hi, hf⟩
      exact ⟨rfl, hi, fun hex f h => by rw [hf]; exact h⟩
    · rintro path ⟨t', c'⟩ ⟨rfl, rfl, rfl⟩
      refine Attempts.bind (l := 0) ((attempts_onStore (attempts_addChunkRef _ _ _)).mono
        (fun _ _ h => h) ?_) ?_
      · -- a file that was written before the append fails stays
        rintro n ⟨t', c'⟩ - ⟨rfl, hi, hf⟩
        exact ⟨rfl, hi.trans (written_index _ _ _), fun hex f h => by
          rw [hf]
          exact written_files h _ d⟩
      · rintro u ⟨t', c'⟩ ⟨rfl, rfl⟩
        exact Attempts.of_does (does_onSession _) rfl rfl

theorem stored_flushed (c : View) (d : Bytes) :
    (c.flushed X d).stored = fun hex => c.stored hex || decide (hex = (ChunkId.fromData X d).toHex) := by
  funext hex
  show (c.written X (ChunkId.fromData X d) d).files.contains hex = _
  unfold View.written View.stored
  split_ifs with hin
  · by_cases hhex : hex = (ChunkId.fromData X d).toHex
    · subst hhex
      simp [hin]
    · simp [hhex]
  · rw [Bool.eq_iff_iff]
    simp only [FinMap.contains_iff, FinMap.get_insert, Bool.or_eq_true, decide_eq_true_eq]
    split_ifs with hid
    · simp [hid]
    · simp [Ne.symm hid]

/-- Which chunk files there are once the pieces are flushed. -/
def storedAfter (X : Crates) (stored : String → Bool) (ps : List Bytes) : String → Bool :=
  ps.foldl (fun stored d hex => stored hex || decide (hex = (ChunkId.fromData X d).toHex)) stored

theorem flushOps_append (stored : String → Bool) (ps qs : List Bytes) :
    flushOps X stored (ps ++ qs) = flushOps X stored ps + flushOps X (storedAfter X stored ps) qs := by
  induction ps generalizing stored with
  | nil => exact (Nat.zero_add _).symm
  | cons d ps ih =>
    rw [List.cons_append, flushOps, flushOps, ih, Nat.add_assoc]
    rfl

theorem flushOps_mono {stored : String → Bool} {ps qs : List Bytes} (h : ps <+: qs) :
    flushOps X stored ps ≤ flushOps X stored qs := by
  obtain ⟨rest, rfl⟩ := h
  rw [flushOps_append]
  exact Nat.le_add_right _ _

/-- **Flushing the pieces.** Where an operation fails, references on the pieces before have been taken,
so on none exactly if it was one of the first piece. -/
theorem attempts_flushEach {t : StoreSession} {ps : List Bytes} (hne : ∀ d ∈ ps, d ≠ [])
    (hbuf : t.buf = []) (h : Tracked c0 t.referencedChunks c) :
    Attempts (sessionFaulty X) (StoreSession.flushEach X ps) (t, c) (flushOps X c.stored ps)
      (fun _ p => p.1.buf = [] ∧
        p.1.referencedChunks = t.referencedChunks ++ ps.map (ChunkId.fromData X) ∧
        p.2.stored = storedAfter X c.stored ps ∧ Tracked c0 p.1.referencedChunks p.2)
      fun n p => t.referencedChunks <+: p.1.referencedChunks ∧
        (p.1.referencedChunks = t.referencedChunks ↔ n < flushOps X c.stored (ps.take 1)) ∧
        Tracked c0 p.1.referencedChunks p.2 := by
  induction ps generalizing t c with
  | nil => exact Attempts.pure ⟨hbuf, (List.append_nil _).symm, rfl, h⟩
  | cons d ps ih =>
    obtain ⟨hd, hps⟩ := List.forall_mem_cons.1 hne
    have hfirst : flushOps X c.stored ((d :: ps).take 1)
        = if c.stored (ChunkId.fromData X d).toHex then 1 else 2 := rfl
    have hops : flushOps X c.stored (d :: ps)
        = (if c.stored (ChunkId.fromData X d).toHex then 1 else 2)
          + flushOps X (c.flushed X d).stored ps := by
      rw [stored_flushed]
      rfl
    rw [hops, hfirst]
    refine Attempts.bind ((attempts_flushPiece hd).mono (fun _ _ he => he) ?_) ?_
    · rintro n ⟨t', c'⟩ hlt ⟨rfl, hi, hf⟩
      exact ⟨List.prefix_refl _, iff_of_true rfl hlt, h.frame hi hf⟩
    · rintro u ⟨t', c'⟩ he
      obtain ⟨rfl, rfl⟩ := Prod.mk.inj he
      refine (ih hps rfl (h.flushed d)).mono ?_ ?_
      · rintro v p ⟨hbuf', hrefs, hstored, htracked⟩
        refine ⟨hbuf', ?_, ?_, htracked⟩
        · rw [hrefs, List.map_cons]
          exact List.append_assoc _ _ _
        · rw [hstored, stored_flushed]
          rfl
      · rintro n p - ⟨hkept, -, htracked⟩
        -- the reference on the first piece is there
        have hmore : t.referencedChunks ++ [ChunkId.fromData X d] <+: p.1.referencedChunks := hkept
        refine ⟨(List.prefix_append _ _).trans hmore, iff_of_false (fun he => ?_) (by omega), htracked⟩
        have hlen := hmore.length_le
        rw [he, List.length_append, List.length_singleton] at hlen
        omega

/-! ## Sessions as flushes of pieces -/

theorem flushEach_append (ps qs : List Bytes) : StoreSession.flushEach X (ps ++ qs)
    = StoreSession.flushEach X ps >>= fun _ => StoreSession.flushEach X qs := by
  unfold StoreSession.flushEach
  induction ps with
  | nil => rfl
  | cons d ps ih =>
    show (StoreSession.flushPiece X d >>= fun _ => (ps ++ qs).forM (StoreSession.flushPiece X))
      = (StoreSession.flushPiece X d >>= fun _ => ps.forM (StoreSession.flushPiece X)) >>= fun _ =>
        qs.forM (StoreSession.flushPiece X)
    rw [ih, bind_assoc]

section
variable {t : StoreSession} {s : Store}

theorem flushPiece_ok {d : Bytes} {p : StoreSession × Store}
    (h : StoreSession.flushPiece X d (t, s) = .ok () p) :
    p.1.buf = [] ∧ p.1.chunkSize = t.chunkSize := by
  have hp := flushChunk_session (t := { t with buf := d }) (s := s) h
  split_ifs at hp with hd
  · rw [hp]
    exact ⟨hd, rfl⟩
  · rw [hp]
    exact ⟨rfl, rfl⟩

theorem flushEach_ok {ps : List Bytes} {p : StoreSession × Store} (hbuf : t.buf = [])
    (h : StoreSession.flushEach X ps (t, s) = .ok () p) :
    p.1.buf = [] ∧ p.1.chunkSize = t.chunkSize := by
  induction ps generalizing t s with
  | nil =>
    cases h
    exact ⟨hbuf, rfl⟩
  | cons d ps ih =>
    obtain ⟨u, ⟨t1, st1⟩, h1, h2⟩ := ok_of_bind h
    obtain ⟨hbuf1, hsize1⟩ := flushPiece_ok h1
    obtain ⟨hbuf2, hsize2⟩ := ih hbuf1 h2
    exact ⟨hbuf2, hsize2.trans hsize1⟩

/-- Bytes put into an empty buffer: the whole pieces are flushed and the remainder stays. -/
theorem putBytes_wholes {d : Bytes} (hsize : 0 < t.chunkSize) (hbuf : t.buf = []) :
    StoreSession.putBytes X d (t, s)
      = (StoreSession.flushEach X (Slices.wholes t.chunkSize d) >>= fun _ =>
        onSession fun s => { s with buf := Slices.remainder t.chunkSize d }) (t, s) := by
  induction hk : d.length using Nat.strongRecOn generalizing d t s with
  | ind k ih =>
    by_cases hle : t.chunkSize ≤ d.length
    · have htake : (d.take t.chunkSize).length = t.chunkSize := List.length_take_of_le hle
      have hne : d.take t.chunkSize ≠ [] := by
        rw [← List.length_pos_iff, htake]
        exact hsize
      have hput : StoreSession.putBytes X d (t, s)
          = (StoreSession.flushPiece X (d.take t.chunkSize) >>= fun _ =>
            StoreSession.putBytes X (d.drop t.chunkSize)) (t, s) := by
        rw [← List.take_append_drop t.chunkSize d, putBytes_append, run_bind, run_bind,
          putBytes_full hne (by rw [htake, hbuf]; exact Nat.zero_add _), hbuf,
          List.take_append_drop]
        rfl
      rw [hput, Slices.wholes_step hsize hle, Slices.remainder_step hsize hle, run_bind]
      show _ = ((StoreSession.flushPiece X (d.take t.chunkSize) >>= fun _ =>
        StoreSession.flushEach X _) >>= _) (t, s)
      rw [bind_assoc, run_bind]
      cases hflush : StoreSession.flushPiece X (d.take t.chunkSize) (t, s) with
      | error e p => rfl
      | ok u p =>
        obtain ⟨hbuf', hsize'⟩ := flushPiece_ok hflush
        have hnext := ih (d.drop t.chunkSize).length (by rw [List.length_drop]; omega)
          (t := p.1) (s := p.2) (by rw [hsize']; exact hsize) hbuf' rfl
        rw [hsize'] at hnext
        exact hnext
    · rw [putBytes_room (by rw [hbuf, List.length_nil]; omega), Slices.wholes_short (by omega),
        Slices.remainder_short (by omega), hbuf]
      rfl

/-- What `finish` does once the buffer is flushed. -/
def StoreSession.commit (X : Crates) : SM MediaManifest := do
  let session := (← get).1
  let now ← onStore nowSecs
  let manifest := session.manifest X now
  let previous ← onStore (Index.getManifest manifest.key)
  onStore (Index.putManifest X manifest)
  match previous with
  | some old => onStore (old.chunks.forM (StoreSession.releaseReplaced X))
  | none => pure ()
  return manifest

/-- A buffer that is not full is the last piece. -/
theorem finish_pieces {r : Bytes} (hbuf : t.buf = []) (hr : r.length < t.chunkSize) :
    StoreSession.finish X ({ t with buf := r }, s)
      = (StoreSession.flushEach X (Slices.slices t.chunkSize r) >>= fun _ =>
        StoreSession.commit X) (t, s) := by
  show (StoreSession.flushChunk X >>= fun _ => StoreSession.commit X) ({ t with buf := r }, s) = _
  by_cases h0 : r = []
  · have ht : { t with buf := r } = t := by rw [h0, ← hbuf]
    rw [ht, h0, run_bind, StoreSession.flushChunk, run_bind, run_get]
    dsimp only
    rw [if_pos hbuf]
    rfl
  · rw [Slices.slices_short h0 (by omega)]
    show _ = ((StoreSession.flushPiece X r >>= fun _ => pure ()) >>= fun _ =>
      StoreSession.commit X) (t, s)
    rw [bind_assoc, run_bind, run_bind]
    rfl

/-- All bytes and `finish`: the pieces and `commit`. -/
theorem putBytes_finish {d : Bytes} (hsize : 0 < t.chunkSize) (hbuf : t.buf = []) :
    (StoreSession.putBytes X d >>= fun _ => StoreSession.finish X) (t, s)
      = (StoreSession.flushEach X (Slices.slices t.chunkSize d) >>= fun _ =>
        StoreSession.commit X) (t, s) := by
  rw [Slices.slices_eq hsize d, flushEach_append, run_bind, putBytes_wholes hsize hbuf, run_bind,
    bind_assoc, run_bind]
  cases hflush : StoreSession.flushEach X (Slices.wholes t.chunkSize d) (t, s) with
  | error e p => rfl
  | ok u p =>
    obtain ⟨hbuf', hsize'⟩ := flushEach_ok hbuf hflush
    have hr := Slices.length_remainder hsize d
    rw [← hsize'] at hr ⊢
    exact finish_pieces (t := p.1) (s := p.2) hbuf' hr

end

/-! ## The end -/

section
variable {t : StoreSession}

/-- Nothing goes wrong in `commit` if the manifest is appended and no fault is left. -/
theorem does_commit (ha : c.Appends true) (hcalm : c.io.tail = Stream'.const .ok) :
    ∃ m c', Does (sessionLens X false) (StoreSession.commit X) (t, c) (.ok m) (t, c') := by
  let m := StoreSession.manifest X t c.nowSecs
  have hc : View.Calm (c.applied (.putManifest m)) := hcalm
  have hput : Does (lens X false) (Index.putManifest X m) c (.ok ()) (c.applied (.putManifest m)) :=
    does_putManifest ha (by rw [hcalm]; exact (by decide : IoPlan.ok.compact ≠ some .afterRename))
  suffices hrest : ∃ c', Does (sessionLens X false)
      (StoreSession.releasePrevious X c.index.manifests[m.key]? m) (t, c.applied (.putManifest m))
      (.ok m) (t, c') by
    obtain ⟨c', hrest⟩ := hrest
    exact ⟨m, c', does_getSession fun s => Does.bind (does_onStore does_nowSecs)
      (Does.bind (does_onStore does_getManifest) (Does.bind (does_onStore hput) hrest))⟩
  cases c.index.manifests[m.key]? with
  | none => exact ⟨_, Does.pure m⟩
  | some old =>
    exact ⟨_, Does.bind (does_onStore (does_releases does_releaseReplaced old.chunks hc))
      (Does.pure m)⟩

theorem does_commit_error (hf : c.FailsAppend false true) :
    Does (sessionLens X false) (StoreSession.commit X) (t, c) (.error ioError)
      (t, { c with io := c.io.tail }) :=
  does_getSession fun _ => Does.bind (does_onStore does_nowSecs)
    (Does.bind (does_onStore does_getManifest)
      (Does.bind_error (does_onStore (does_putManifest_error hf))))

/-- **Aborting a session** drops what it has taken. -/
theorem does_abort_tracked (hc : c.Calm) (h : Tracked c0 t.referencedChunks c) :
    ∃ t' c', Does (sessionLens X false) (StoreSession.abort X) (t, c) (.ok ()) (t', c') ∧
      Tracked c0 [] c' :=
  ⟨_, _, does_getSession fun _ => Does.bind (does_onSession _)
    (does_onStore (does_releases does_releaseAborted t.referencedChunks hc)), h.releases⟩

end

/-- **Pieces and `commit`.** The only failures are those of the operation with the fault. -/
theorem does_pieces_commit {t : StoreSession} {ps : List Bytes} {n : Nat} {fault : IoPlan}
    (hne : ∀ d ∈ ps, d ≠ []) (hbuf : t.buf = []) (h : Tracked c0 t.referencedChunks c)
    (hio : c.io = IoPlan.once n fault) (hn : n ≤ flushOps X c.stored ps ∨ fault = .ok) :
    ∃ r t' c', Does (sessionLens X false) (StoreSession.flushEach X ps >>= fun _ =>
        StoreSession.commit X) (t, c) r (t', c') ∧
      ((∃ m, r = .ok m) ∨ r = .error ioError ∧ fault ≠ .ok ∧
        t.referencedChunks <+: t'.referencedChunks ∧
        (t'.referencedChunks = t.referencedChunks
          ↔ ps = [] ∨ n < flushOps X c.stored (ps.take 1)) ∧
        Tracked c0 t'.referencedChunks c') := by
  rcases attempts_flushEach (X := X) hne hbuf h n fault hio with
    ⟨u, ⟨t1, c1⟩, n1, fault1, hflush, ⟨-, hrefs, -, htracked⟩, hafter⟩ |
    ⟨⟨t1, c1⟩, hflush, ⟨hkept, hiff, htracked⟩, -, hlt, hfault⟩
  · have hio1 : c1.io = Effects.once .ok n1 fault1 := hafter.plans
    have hleft : fault1 = .ok ∨ n1 = 0 ∧ n = flushOps X c.stored ps ∧ fault1 = fault := by
      by_cases hk : flushOps X c.stored ps ≤ n
      · obtain ⟨hn1, hf1⟩ := hafter.before hk
        rcases hn with hn | hok
        · exact .inr ⟨by omega, by omega, hf1⟩
        · exact .inl (hf1.trans hok)
      · exact .inl (hafter.past (by omega))
    rcases c1.appends_or_fails true with happ | hfail
    · have htail : c1.io.tail = Stream'.const .ok := by
        rcases hleft with rfl | ⟨rfl, -⟩
        · rw [hio1, once_good]
          rfl
        · rw [hio1, tail_once_zero]
      obtain ⟨m, c2, hcommit⟩ := does_commit (X := X) (t := t1) happ htail
      exact ⟨.ok m, t1, c2, Does.bind hflush hcommit, .inl ⟨m, rfl⟩⟩
    · have hne1 : fault1 ≠ .ok := by
        rintro rfl
        refine hfail.ne_ok ?_
        rw [hio1, once_good]
        rfl
      obtain ⟨-, hnk, rfl⟩ := hleft.resolve_left hne1
      refine ⟨_, t1, _, Does.bind hflush (does_commit_error hfail), .inr ⟨rfl, hne1,
        hrefs ▸ List.prefix_append _ _, ?_, htracked.frame rfl fun _ _ hf => hf⟩⟩
      have hle : flushOps X c.stored (ps.take 1) ≤ flushOps X c.stored ps :=
        flushOps_mono (List.take_prefix 1 ps)
      show t1.referencedChunks = t.referencedChunks ↔ _
      rw [show t1.referencedChunks = _ from hrefs, or_iff_left (by omega)]
      simp
  · refine ⟨_, t1, c1, Does.bind_error hflush, .inr ⟨rfl, hfault, hkept, ?_, htracked⟩⟩
    rw [hiff]
    refine (or_iff_right ?_).symm
    rintro rfl
    exact Nat.not_lt_zero n hlt

end KaidaDB
