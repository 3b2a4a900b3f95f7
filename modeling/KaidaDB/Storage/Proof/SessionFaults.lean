import KaidaDB.Crates.Reference
import KaidaDB.Storage.Proof.Beside
import KaidaDB.Storage.Proof.Flushes
import KaidaDB.Storage.SessionFaults

/-!
# What a session holds after a failed write

The bytes of a session are those it has hashed and those it buffers. A flush that fails takes the
buffer away, so a call of `write` in which the flush after `j` others fails leaves the hashed bytes and
`j` pieces more (`write_ends`). That is what was there before exactly if nothing was buffered and `j`
is 0, and what a call adds or takes away besides shows in the length of the object that `finish`
commits (`session_commits_accepted`).
-/

namespace KaidaDB

open Std Effects

variable {X : Crates} {D : Set Bytes} {need : ChunkId → Int} {c : View} {t : StoreSession}

/-! ## One flush -/

theorem appends_of_ref (h : c.io.head.failsRef = false) : c.Appends false := by
  unfold IoPlan.failsRef at h
  rcases hp : c.io.head.append with _ | n | _
  · exact .inl hp
  · rw [hp] at h
    cases h
  · exact .inr ⟨hp, fun hs => by cases hs.1⟩

theorem failsAppend_of_ref (h : c.io.head.failsRef = true) : c.FailsAppend false false := by
  unfold IoPlan.failsRef at h
  rcases hp : c.io.head.append with _ | n | _
  · rw [hp] at h
    cases h
  · exact .inl ⟨n, hp, fun hl => by cases hl⟩
  · rw [hp] at h
    cases h

/-- The plans once the chunk is written. -/
def View.afterWrite (c : View) (hex : String) : Stream' IoPlan := if c.stored hex then c.io else c.io.tail

/-- The plans make the flush of a piece fail. -/
def View.flushFails (X : Crates) (c : View) (d : Bytes) : Bool :=
  let hex := (ChunkId.fromData X d).toHex
  (!c.stored hex && c.io.head.writeFails) || (c.afterWrite hex).head.failsRef

theorem written_io (c : View) (id : ChunkId) (d : Bytes) :
    (c.written X id d).io = c.afterWrite id.toHex := by
  unfold View.written View.afterWrite View.stored
  split_ifs <;> rfl

/-- The rest of a flush once the buffer is taken. -/
theorem does_flushPiece_of {d : Bytes} (hne : d ≠ []) {r : Except Fail Unit}
    {p : StoreSession × View}
    (h : Does (sessionLens X false) (onStore (BlobStore.writeChunk X (ChunkId.fromData X d) d)
        >>= fun path => onStore (Index.addChunkRef X (ChunkId.fromData X d) path) >>= fun _ =>
        onSession fun s => s.addChunk (ChunkId.fromData X d) d) ({ t with buf := [] }, c) r p) :
    Does (sessionLens X false) (StoreSession.flushPiece X d) (t, c) r p := by
  refine Does.bind (does_onSession _) (does_getSession fun s => ?_)
  rw [if_neg hne]
  exact Does.bind (does_onSession _) h

/-- A chunk that has a file needs no plan. -/
theorem does_writeChunk_unless {id : ChunkId} {d : Bytes}
    (h : (!c.stored id.toHex && c.io.head.writeFails) = false) :
    Does (lens X false) (BlobStore.writeChunk X id d) c
      (.ok (BlobStore.chunkPath c.dataDir id)) (c.written X id d) := by
  cases hin : c.stored id.toHex with
  | true =>
    have hsame : c.written X id d = c := if_pos hin
    rw [hsame]
    exact does_writeChunk_found hin
  | false =>
    rw [hin] at h
    exact does_writeChunk h

theorem does_flushPiece {d : Bytes} (hne : d ≠ []) (hok : c.flushFails X d = false) :
    Does (sessionLens X false) (StoreSession.flushPiece X d) (t, c) (.ok ())
      ({ t with buf := d }.flushed X, c.flushed X d) := by
  obtain ⟨hw, hr⟩ := Bool.or_eq_false_iff.1 hok
  refine does_flushPiece_of hne (Does.bind (does_onStore (does_writeChunk_unless hw))
    (Does.bind (does_onStore (does_addChunkRef (appends_of_ref ?_))) (does_onSession _)))
  rw [written_io]
  exact hr

/-- A flush that fails: the buffer is gone, and a chunk may have been written. -/
theorem does_flushPiece_error {d : Bytes} (hne : d ≠ []) (hfail : c.flushFails X d = true) :
    ∃ c', Does (sessionLens X false) (StoreSession.flushPiece X d) (t, c) (.error ioError)
        ({ t with buf := [] }, c') ∧ c'.index = c.index ∧
      (c'.files = c.files ∨ c'.files = (c.written X (ChunkId.fromData X d) d).files) := by
  cases hw : !c.stored (ChunkId.fromData X d).toHex && c.io.head.writeFails with
  | true =>
    obtain ⟨hin, hplan⟩ := Bool.and_eq_true_iff.1 hw
    have hnot : c.stored (ChunkId.fromData X d).toHex = false := by simpa using hin
    exact ⟨_, does_flushPiece_of hne (Does.bind_error (does_onStore
      (does_writeChunk_error (Bool.eq_false_iff.1 hnot) hplan))), rfl, .inl rfl⟩
  | false =>
    have hr : (c.afterWrite (ChunkId.fromData X d).toHex).head.failsRef = true :=
      (Bool.or_eq_true_iff.1 hfail).resolve_left (Bool.eq_false_iff.1 hw)
    refine ⟨_, does_flushPiece_of hne (Does.bind (does_onStore (does_writeChunk_unless hw))
      (Does.bind_error (does_onStore (does_addChunkRef_error (failsAppend_of_ref ?_))))),
      written_index c _ d, .inr rfl⟩
    rw [written_io]
    exact hr

/-! ## Flushing pieces under any plans -/

/-- The session has received `b` and holds what it needs. -/
structure Takes (X : Crates) (D : Set Bytes) (need : ChunkId → Int) (t : StoreSession) (c : View)
    (b : Bytes) : Prop where
  sound : Sound X D c fun a => need a + t.holds a
  received : Receives X D t b

/-- What flushing ends with. -/
def flushOutcome : Option Nat → Except Fail Unit
  | none => .ok ()
  | some _ => .error ioError

theorem does_flushEach {ps : List Bytes} {b : Bytes}
    (hps : ∀ p ∈ ps, p.length = t.chunkSize ∧ p ∈ D) (hbuf : t.buf = [])
    (h : Takes X D need t c b) :
    ∃ t' c', Does (sessionLens X false) (StoreSession.flushEach X ps) (t, c)
        (flushOutcome (failingFlush X c.stored c.io ps)) (t', c') ∧
      Takes X D need t' c'
        (b ++ (ps.take ((failingFlush X c.stored c.io ps).getD ps.length)).flatten) ∧
      t'.buf = [] ∧ t'.settings = t.settings := by
  induction ps generalizing t c b with
  | nil => exact ⟨t, c, Does.pure (), by rwa [List.take_nil, List.flatten_nil, List.append_nil],
      hbuf, rfl⟩
  | cons d ps ih =>
    obtain ⟨⟨hlen, hd⟩, hrest⟩ := List.forall_mem_cons.1 hps
    have hne : d ≠ [] := by
      rw [← List.length_pos_iff, hlen]
      exact h.received.size
    have hsmall : d.length ≤ isizeMax := hlen ▸ h.received.small
    have hstep : failingFlush X c.stored c.io (d :: ps) = if c.flushFails X d then some 0
        else (failingFlush X (c.flushed X d).stored (c.flushed X d).io ps).map (· + 1) := by
      have hio : (c.flushed X d).io = (c.afterWrite (ChunkId.fromData X d).toHex).tail :=
        congrArg Stream'.tail (written_io c _ d)
      rw [stored_flushed, hio]
      rfl
    rw [hstep]
    by_cases hfail : c.flushFails X d = true
    · rw [if_pos hfail]
      obtain ⟨c', hx, hi, hf⟩ := does_flushPiece_error (t := t) hne hfail
      have ht : { t with buf := [] } = t := by rw [← hbuf]
      rw [ht] at hx
      refine ⟨t, c', Does.bind_error hx, ⟨?_, ?_⟩, hbuf, rfl⟩
      · rcases hf with hf | hf
        · exact h.sound.frame hi hf
        · exact (h.sound.written hd hsmall).1.frame (hi.trans (written_index c _ d).symm) hf
      · rw [Option.getD_some, List.take_zero, List.flatten_nil, List.append_nil]
        exact h.received
    · rw [if_neg hfail]
      have hfill := h.received.fill (d := d) (by rw [hbuf, hlen]; exact Nat.zero_add _)
        (by rw [hbuf]; exact hd)
      rw [hbuf, List.nil_append] at hfill
      have hsound : Sound X D (c.flushed X d) fun a =>
          need a + ({ t with buf := d }.flushed X).holds a :=
        Sound.flushed_holds (t := { t with buf := d }) h.sound hd hsmall
      obtain ⟨t', c', hx, htakes, hbuf', hset⟩ := ih (t := { t with buf := d }.flushed X)
        (c := c.flushed X d) hrest rfl ⟨hsound, hfill⟩
      refine ⟨t', c', Does.bind (does_flushPiece hne (Bool.eq_false_iff.2 hfail)) ?_, ?_, hbuf', hset⟩
      · cases hfirst : failingFlush X (c.flushed X d).stored (c.flushed X d).io ps with
        | none =>
          rw [hfirst] at hx
          exact hx
        | some j =>
          rw [hfirst] at hx
          exact hx
      · cases hfirst : failingFlush X (c.flushed X d).stored (c.flushed X d).io ps with
        | none =>
          rw [hfirst, List.append_assoc] at htakes
          exact htakes
        | some j =>
          rw [hfirst, List.append_assoc] at htakes
          exact htakes

theorem failingFlush_lt {stored : String → Bool} {io : Stream' IoPlan} {ps : List Bytes} {j : Nat}
    (h : failingFlush X stored io ps = some j) : j < ps.length := by
  induction ps generalizing stored io j with
  | nil => cases h
  | cons d ps ih =>
    unfold failingFlush at h
    by_cases hfail : ((!stored (ChunkId.fromData X d).toHex && io.head.writeFails) ||
        (if stored (ChunkId.fromData X d).toHex then io else io.tail).head.failsRef) = true
    · rw [if_pos hfail] at h
      cases h
      exact Nat.succ_pos _
    rw [if_neg hfail] at h
    obtain ⟨k, hk, rfl⟩ := Option.map_eq_some_iff.1 h
    exact Nat.succ_lt_succ (ih hk)

/-! ## A call of `write` -/

/-- What a call adds to the bytes that are accepted. -/
def taken (data : Bytes) : Except Fail Unit → Bytes
  | .ok _ => data
  | .error _ => []

/-- The buffer may as well be put first. -/
theorem putBytes_rebuffer {s : Store} (h : t.HasRoom) (data : Bytes) :
    StoreSession.putBytes X data (t, s)
      = StoreSession.putBytes X (t.buf ++ data) ({ t with buf := [] }, s) := by
  have hroom : ({ t with buf := [] } : StoreSession).buf.length + t.buf.length
      < ({ t with buf := [] } : StoreSession).chunkSize := by
    rw [List.length_nil, Nat.zero_add]
    exact h
  rw [putBytes_append, run_bind, putBytes_room hroom]
  rfl

theorem Receives.unbuffered {b : Bytes} (h : Receives X D t b) :
    Receives X D { t with buf := [] } t.hasher where
  size := h.size
  small := h.small
  bytes := List.append_nil _
  aligned := h.aligned
  room := h.size
  chunks := h.chunks
  held := h.held
  total := h.total
  known := h.known

/-- What is left of a call of `write` that is not refused. -/
theorem write_pieces {s : Store} {b : Bytes} (h : Receives X D t b) {data : Bytes}
    (hfits : ¬ t.Refuses data) :
    StoreSession.write X data (t, s)
      = (StoreSession.flushEach X (Slices.wholes t.chunkSize (t.buf ++ data)) >>= fun _ =>
        onSession fun u => { u with buf := Slices.remainder t.chunkSize (t.buf ++ data) })
        ({ t with buf := [] }, s) := by
  rw [write_eq h.room (by unfold StoreSession.Fits; unfold StoreSession.Refuses at hfits; omega),
    putBytes_rebuffer h.room]
  exact putBytes_wholes (t := { t with buf := [] }) h.size rfl

theorem write_of_pieces {s : Store} {b : Bytes} (hs : s.attached = true) (h : Receives X D t b)
    {data : Bytes} (hfits : ¬ t.Refuses data) {r : Except Fail Unit} {p : StoreSession × View}
    (hx : Does (sessionLens X false) (StoreSession.flushEach X
        (Slices.wholes t.chunkSize (t.buf ++ data)) >>= fun _ =>
        onSession fun u => { u with buf := Slices.remainder t.chunkSize (t.buf ++ data) })
      ({ t with buf := [] }, s.view) r p) :
    ∃ s', StoreSession.write X data (t, s) = result r (p.1, s') ∧ s'.attached = true ∧
      s'.view = p.2 := by
  obtain ⟨q, hrun, hq, rfl⟩ := hx ({ t with buf := [] }, s) ⟨hs, fun hl => by cases hl⟩ rfl
  refine ⟨q.2, ?_, hq.1, rfl⟩
  rw [write_pieces h hfits, hrun]
  rfl

theorem write_refused {s : Store} {data : Bytes} (h : t.Refuses data) :
    StoreSession.write X data (t, s) = .error (.error (.tooLarge
      s!"object exceeds max_object_size of {t.maxObjectSize} bytes")) (t, s) :=
  write_tooLarge (by unfold StoreSession.Fits; unfold StoreSession.Refuses at h; omega)

/-- **A call of `write`.** It adds what it accepts to the bytes of the session exactly if it loses
nothing, and otherwise their number is not right. -/
theorem write_ends {s : Store} {b data : Bytes} (hs : s.attached = true)
    (h : Takes X D need t s.view b) (hD : ∀ p, p <:+: b ++ data → p ∈ D) :
    ∃ r t' s' b', StoreSession.write X data (t, s) = result r (t', s') ∧ s'.attached = true ∧
      Takes X D need t' s'.view b' ∧ t'.settings = t.settings ∧
      (t.LosesNothing X s data → b' = b ++ taken data r) ∧
      (¬ t.LosesNothing X s data → b'.length ≠ (b ++ taken data r).length) := by
  by_cases hbig : t.Refuses data
  · exact ⟨.error _, t, s, b, write_refused hbig, hs, h, rfl,
      fun _ => (List.append_nil b).symm, fun hnot => absurd (.inl hbig) hnot⟩
  · have hsize := h.received.size
    have hbytes := h.received.bytes
    have hroom := h.received.room
    obtain ⟨ps, hps⟩ : ∃ ps, ps = Slices.wholes t.chunkSize (t.buf ++ data) := ⟨_, rfl⟩
    have hpieces : ∀ p ∈ ps, p.length = t.chunkSize ∧ p ∈ D := by
      rw [hps]
      intro p hp
      refine ⟨Slices.length_wholes hsize _ hp, hD p ?_⟩
      rw [← hbytes, List.append_assoc]
      exact (Slices.wholes_infix hsize _ hp).trans (List.suffix_append _ _).isInfix
    have hsplit : ps.flatten ++ Slices.remainder t.chunkSize (t.buf ++ data) = t.buf ++ data := by
      rw [hps]
      exact Slices.flatten_wholes hsize _
    have hempty : Takes X D need { t with buf := [] } s.view _ := ⟨h.sound, h.received.unbuffered⟩
    obtain ⟨t1, c1, hx, htakes, hbuf, hset⟩ :=
      does_flushEach (t := { t with buf := [] }) hpieces rfl hempty
    have hfailing : t.failing X s data = failingFlush X s.view.stored s.view.io ps := by
      rw [hps]
      rfl
    rw [← hfailing] at hx htakes
    cases hfirst : t.failing X s data with
    | none =>
      -- all of them succeed, and the remainder is buffered
      rw [hfirst, Option.getD_none, List.take_length] at htakes
      rw [hfirst, hps] at hx
      obtain ⟨s', hrun, hs', hv⟩ := write_of_pieces hs h.received hbig
        (Does.bind hx (does_onSession _))
      have hchunk : t1.chunkSize = t.chunkSize := congrArg Prod.fst hset
      have hlen := Slices.length_remainder hsize (t.buf ++ data)
      have hrec := htakes.received.buffer (d := Slices.remainder t.chunkSize (t.buf ++ data))
        (by rw [hbuf, List.length_nil, Nat.zero_add, hchunk]; exact hlen)
      rw [hbuf, List.nil_append, List.append_assoc, hsplit, ← List.append_assoc, hbytes] at hrec
      refine ⟨.ok (), _, s', b ++ data, hrun, hs', ⟨?_, hrec⟩, hset,
        fun _ => rfl, fun hnot => absurd (.inr (.inl hfirst)) hnot⟩
      rw [hv]
      exact htakes.sound
    | some j =>
      -- the buffer is gone, and with it what follows the first pieces
      have hj : j < ps.length := failingFlush_lt (hfailing ▸ hfirst)
      rw [hfirst, Option.getD_some] at htakes
      rw [hfirst, hps] at hx
      obtain ⟨s', hrun, hs', hv⟩ := write_of_pieces hs h.received hbig (Does.bind_error hx)
      have htook : ((ps.take j).flatten).length = j * t.chunkSize := by
        rw [Slices.length_flatten_const fun p hp => (hpieces p (List.mem_of_mem_take hp)).1,
          List.length_take_of_le hj.le]
      have hblen : b.length = t.hasher.length + t.buf.length := by
        rw [← hbytes, List.length_append]
      refine ⟨.error ioError, t1, s', t.hasher ++ (ps.take j).flatten, hrun, hs', ?_, hset,
        fun hkeep => ?_, fun hnot hlen => hnot (.inr (.inr ?_))⟩
      · rw [hv]
        exact htakes
      · obtain ⟨h0, hempty⟩ : some j = some 0 ∧ t.buf = [] := by
          rcases hkeep with hr | hn | h0
          · exact absurd hr hbig
          · rw [hfirst] at hn
            cases hn
          · rwa [hfirst] at h0
        cases h0
        show t.hasher ++ [] = b ++ []
        rw [List.append_nil, List.append_nil, ← hbytes, hempty, List.append_nil]
      · simp only [taken, List.append_nil, List.length_append, htook] at hlen
        -- fewer bytes are buffered than a piece has
        have hmul : j * t.chunkSize < 1 * t.chunkSize := by omega
        have hzero : j = 0 := Nat.lt_one_iff.1 (Nat.lt_of_mul_lt_mul_right hmul)
        subst hzero
        exact ⟨hfirst, List.eq_nil_of_length_eq_zero (by omega)⟩

/-! ## All calls of `write` -/

theorem writeEach_cons {s s' : Store} {t' : StoreSession} {data : Bytes} {r : Except Fail Unit}
    (h : StoreSession.write X data (t, s) = result r (t', s')) (rest : List Bytes) :
    StoreSession.writeEach X (data :: rest) (t, s)
      = (taken data r ++ (StoreSession.writeEach X rest (t', s')).1,
        (StoreSession.writeEach X rest (t', s')).2) := by
  rw [StoreSession.writeEach, h]
  cases r <;> rfl

theorem losses_cons {s s' : Store} {t' : StoreSession} {data : Bytes} {r : Except Fail Unit}
    (h : StoreSession.write X data (t, s) = result r (t', s')) (rest : List Bytes) :
    StoreSession.losses X (data :: rest) (t, s)
      = (if t.LosesNothing X s data then 0 else 1) + StoreSession.losses X rest (t', s') := by
  rw [StoreSession.losses, h, left_result]

/-- **The calls of `write`.** What the session holds is what they accepted if none of them loses
anything, and of another length if one does. -/
theorem writeEach_ends {ds : List Bytes} {s : Store} {b : Bytes} (hs : s.attached = true)
    (h : Takes X D need t s.view b) (hD : pieces (StoreSession.receivedWith X ds (t, s)) ⊆ D) :
    ∃ b' t' s', (StoreSession.writeEach X ds (t, s)).2 = (t', s') ∧ s'.attached = true ∧
      Takes X D need t' s'.view b' ∧ t'.settings = t.settings ∧ (∀ p, p <:+: b' → p ∈ D) ∧
      (StoreSession.losses X ds (t, s) = 0 → b' = b ++ (StoreSession.writeEach X ds (t, s)).1) ∧
      (StoreSession.losses X ds (t, s) = 1 →
        b'.length ≠ (b ++ (StoreSession.writeEach X ds (t, s)).1).length) := by
  induction ds generalizing t s b with
  | nil =>
    refine ⟨b, t, s, rfl, hs, h, rfl, fun p hp => ?_, fun _ => (List.append_nil b).symm,
      fun h1 => by cases h1⟩
    exact hD ⟨_, List.mem_singleton_self _, h.received.bytes ▸ hp⟩
  | cons data rest ih =>
    have hfirst : ∀ p, p <:+: b ++ data → p ∈ D := fun p hp =>
      hD ⟨_, List.mem_cons_self, h.received.bytes ▸ hp⟩
    obtain ⟨r, t1, s1, b1, hwrite, hs1, h1, hset1, hkeep, hlose⟩ := write_ends hs h hfirst
    obtain ⟨b', t', s', hrest, hs', h', hset', hknown, hall, hone⟩ := ih hs1 h1 fun p ⟨c, hc, hp⟩ =>
      hD ⟨c, List.mem_cons_of_mem _ (by rwa [hwrite, left_result]), hp⟩
    rw [writeEach_cons hwrite, losses_cons hwrite]
    refine ⟨b', t', s', hrest, hs', h', hset'.trans hset1, hknown, fun h0 => ?_, fun h1' => ?_⟩
    · split_ifs at h0 with hnone
      · rw [hall (by omega), hkeep hnone, List.append_assoc]
      · omega
    · split_ifs at h1' with hnone
      · have hlen := hone (by omega)
        rw [hkeep hnone, List.append_assoc] at hlen
        exact hlen
      · have hlen := hlose hnone
        rw [hall (by omega), List.length_append, ← List.append_assoc, List.length_append]
        omega

/-! ## Committing -/

/-- What is seen of a store, but for what goes wrong. -/
def Store.calmView (s : Store) : View := { s.view with io := Stream'.const .ok }

theorem calm_calmView (s : Store) : s.calmView.Calm := rfl

/-- What an operation does to index and files where it returns `Ok`: what it does if nothing fails. -/
theorem ok_of_steady {α : Type} {x : M α} {s p : Store} {a b : α} {c' : View} (hx : Steady x)
    (hd : Does (lens X false) x s.calmView (.ok a) c') (h : x s = .ok b p) :
    b = a ∧ p.index = c'.index ∧ p.files = c'.files := by
  let u : Store := { s with io := Stream'.const .ok, attached := true }
  have hbeside : Beside s u := ⟨rfl, rfl, rfl⟩
  obtain ⟨u', hrun, -, hview⟩ := hd u ⟨rfl, fun hl => by cases hl⟩ rfl
  rcases hx.ends hbeside hrun with ⟨e, s', he, -⟩ | ⟨s', hok, hindex, hfiles, -⟩
  · rw [he] at h
    cases h
  · rw [hok] at h
    cases h
    exact ⟨rfl, hindex.trans (congrArg View.index hview), hfiles.trans (congrArg View.files hview)⟩

theorem putManifest_ok {m : MediaManifest} {s p : Store} (h : Index.putManifest X m s = .ok () p) :
    p.index = applyEntry s.index (.putManifest m) ∧ p.files = s.files := by
  have hcalm := calm_calmView s
  have hsteady : Steady (Index.putManifest X m) :=
    steady_logged _ true (steady_of_quiet maybeCompact_quiet)
  exact (ok_of_steady hsteady (does_putManifest (hcalm.appends _) hcalm.compact) h).2

theorem decrement_ok {id : ChunkId} {last : Bool} {s p : Store}
    (h : Index.decrementChunkRef X id s = .ok last p) :
    last = lastRef s.index id ∧ p.index = s.index.dropRef id ∧ p.files = s.files :=
  ok_of_steady (steady_decrementChunkRef id) (does_decrement (calm_calmView s) id) h

/-- A file that cannot be removed stays. -/
theorem deleteChunk_ignored {id : ChunkId} {s p : Store}
    (h : ignoreError (BlobStore.deleteChunk id) s = .ok () p) :
    p.index = s.index ∧ (p.files = s.files ∨ p.files = s.files.erase id.toHex) := by
  by_cases hin : s.files.contains id.toHex = true
  · cases hplan : s.io.head.removeFails with
    | true =>
      simp only [ignoreError, BlobStore.deleteChunk, run_discard, run_tryCatch, run_bind, run_get, hin,
        if_true, nextPlan, run_modifyGet, hplan] at h
      cases h
      exact ⟨rfl, .inl rfl⟩
    | false =>
      simp only [ignoreError, BlobStore.deleteChunk, run_discard, run_tryCatch, run_bind, run_get, hin,
        if_true, nextPlan, run_modifyGet, hplan] at h
      cases h
      exact ⟨rfl, .inr rfl⟩
  · simp only [ignoreError, BlobStore.deleteChunk, run_discard, run_tryCatch, run_bind, run_get,
      if_neg hin] at h
    cases h
    exact ⟨rfl, .inl rfl⟩

theorem unlinked_erase (c : View) (id : ChunkId) : (c.unlinked id).files = c.files.erase id.toHex :=
  FinMap.ext_get fun hex => by rw [unlinked_files, FinMap.get_erase]

/-- **A reference of the replaced version dropped.** -/
theorem releaseReplaced_ok {id : ChunkId} {s p : Store} (hs : Sound X D s.view need)
    (h : StoreSession.releaseReplaced X id s = .ok () p) :
    Sound X D p.view (fun a => need a - if id = a then 1 else 0) ∧
      p.index.manifests = s.index.manifests := by
  obtain ⟨last, s1, hdrop, hrest⟩ := ok_of_bind h
  obtain ⟨rfl, hindex, hfiles⟩ := decrement_ok hdrop
  have hman : s1.index.manifests = s.index.manifests := by
    rw [hindex, dropRef_manifests]
  have hdropped : Sound X D s1.view fun a => need a - if id = a then 1 else 0 :=
    (hs.dropped id).frame hindex hfiles
  split_ifs at hrest with hlast
  · obtain ⟨hindex', hfiles'⟩ := deleteChunk_ignored hrest
    refine ⟨?_, (congrArg IndexState.manifests hindex').trans hman⟩
    rcases hfiles' with hkept | hgone
    · exact hdropped.frame hindex' hkept
    · refine (hs.released id).frame (hindex'.trans (hindex.trans (released_index s.view id).symm)) ?_
      rw [View.released, if_pos (show lastRef s.view.index id = true from hlast)]
      rw [unlinked_erase]
      exact hgone.trans (congrArg (·.erase id.toHex) hfiles)
  · cases hrest
    exact ⟨hdropped, hman⟩

theorem releases_ok : ∀ (ids : List ChunkId) {need : ChunkId → Int} {s p : Store},
    Sound X D s.view need → ids.forM (StoreSession.releaseReplaced X) s = .ok () p →
    Sound X D p.view (fun a => need a - ids.count a) ∧ p.index.manifests = s.index.manifests
  | [], _, _, _, hs, h => by
    cases h
    exact ⟨hs.weaken fun a => by simp, rfl⟩
  | id :: ids, _, _, _, hs, h => by
    obtain ⟨_, s1, h1, h2⟩ := ok_of_bind h
    obtain ⟨hs1, hm1⟩ := releaseReplaced_ok hs h1
    obtain ⟨hs2, hm2⟩ := releases_ok ids hs1 h2
    refine ⟨hs2.weaken fun a => ?_, hm2.trans hm1⟩
    rw [List.count_cons]
    by_cases ha : id = a
    · simp only [ha, beq_self_eq_true, if_true]
      omega
    · simp [ha]

/-- A flush that returns `Ok`. -/
theorem flushChunk_ok {s : Store} {p : StoreSession × Store} (hs : s.attached = true)
    (hne : t.buf ≠ []) (h : StoreSession.flushChunk X (t, s) = .ok () p) :
    p.1 = t.flushed X ∧ p.2.view = s.view.flushed X t.buf := by
  have hpiece : StoreSession.flushPiece X t.buf (t, s) = .ok () p := h
  cases hfail : s.view.flushFails X t.buf with
  | true =>
    obtain ⟨c', hx, -⟩ := does_flushPiece_error (t := t) hne hfail
    obtain ⟨q, hrun, -⟩ := hx (t, s) ⟨hs, fun hl => by cases hl⟩ rfl
    rw [hpiece] at hrun
    cases hrun
  | false =>
    obtain ⟨q, hrun, -, hview⟩ := does_flushPiece (t := t) hne hfail (t, s)
      ⟨hs, fun hl => by cases hl⟩ rfl
    rw [hpiece] at hrun
    cases hrun
    exact Prod.mk.inj hview

theorem ok_of_onStore {α : Type} {x : M α} {s : Store} {p : StoreSession × Store} {a : α}
    (h : onStore x (t, s) = .ok a p) : ∃ s', x s = .ok a s' ∧ p = (t, s') := by
  rw [onStore] at h
  cases hr : x s with
  | ok b s' =>
    rw [hr] at h
    cases h
    exact ⟨s', rfl, rfl⟩
  | error e s' =>
    rw [hr] at h
    cases h

/-- The flush that `finish` begins with. -/
theorem lastFlush_ok {s : Store} {b : Bytes} {p : StoreSession × Store} (hs : s.attached = true)
    (hT : Takes X D need t s.view b) (hD : ∀ p, p <:+: b → p ∈ D)
    (h : StoreSession.flushChunk X (t, s) = .ok () p) :
    LastFlush X D need (fun _ => True) t b s.view p.1 p.2.view := by
  by_cases h0 : t.buf = []
  · have hnil : Does (sessionLens X false) (StoreSession.flushChunk X) (t, s.view) _ _ :=
      does_flushChunk_nil h0
    obtain ⟨q, hrun, -, hview⟩ := hnil (t, s) ⟨hs, fun hl => by cases hl⟩ rfl
    rw [h] at hrun
    cases hrun
    obtain ⟨ht, hv⟩ := Prod.mk.inj hview
    rw [ht, hv]
    exact .nil trivial hT.sound hT.received h0
  · obtain ⟨ht, hv⟩ := flushChunk_ok hs h0 h
    rw [ht, hv]
    exact .chunk trivial hT.sound hT.received h0 (hD _ hT.received.buffered)

theorem releasePrevious_ok {s : Store} {previous : Option MediaManifest} {m m' : MediaManifest}
    {p : StoreSession × Store}
    (hs : Sound X D s.view fun a => need a + previous.elim 0 fun old => old.chunks.count a)
    (h : StoreSession.releasePrevious X previous m' (t, s) = .ok m p) :
    m = m' ∧ Sound X D p.2.view need ∧ p.2.index.manifests = s.index.manifests := by
  cases previous with
  | none =>
    cases h
    exact ⟨rfl, hs.weaken fun a => by simp, rfl⟩
  | some old =>
    obtain ⟨_, q, hreleases, hend⟩ := ok_of_bind h
    cases hend
    obtain ⟨s', hreleases', rfl⟩ := ok_of_onStore hreleases
    obtain ⟨hs', hman⟩ := releases_ok old.chunks hs hreleases'
    exact ⟨rfl, hs'.weaken fun a => by simp, hman⟩

/-- **Committing a session**: if `finish` returns `Ok`, what the session has received is the object under
its key. -/
theorem finish_ok {s : Store} {b : Bytes} {m : MediaManifest} {p : StoreSession × Store}
    (hs : s.attached = true) (hT : Takes X D need t s.view b) (hD : ∀ p, p <:+: b → p ∈ D)
    (h : StoreSession.finish X (t, s) = .ok m p) :
    Sound X D p.2.view need ∧ p.2.index.manifests[t.key]? = some m ∧ Describes X D m b := by
  obtain ⟨_, ⟨t1, s1⟩, hflush, hcommit⟩ := ok_of_bind h
  have hlast := lastFlush_ok hs hT hD hflush
  obtain ⟨_, _, hget, h1⟩ := ok_of_bind hcommit
  cases hget
  obtain ⟨now, q, hnow, h2⟩ := ok_of_bind h1
  obtain ⟨_, hnow', rfl⟩ := ok_of_onStore hnow
  cases hnow'
  obtain ⟨previous, q, hprev, h3⟩ := ok_of_bind h2
  obtain ⟨_, hprev', rfl⟩ := ok_of_onStore hprev
  cases hprev'
  obtain ⟨_, q, hput, h4⟩ := ok_of_bind h3
  obtain ⟨s2, hput', rfl⟩ := ok_of_onStore hput
  obtain ⟨hindex, hfiles⟩ := putManifest_ok hput'
  have hm : StoreSession.manifest X t1 s1.view.nowSecs = t.manifestOf X b s1.view.nowSecs :=
    hlast.manifest _
  have hrest : StoreSession.releasePrevious X
      s1.index.manifests[(StoreSession.manifest X t1 s1.view.nowSecs).key]?
      (StoreSession.manifest X t1 s1.view.nowSecs) (t1, s2) = .ok m p := h4
  have hindex : s2.index = applyEntry s1.index
      (.putManifest (StoreSession.manifest X t1 s1.view.nowSecs)) := hindex
  have hold : s1.index.manifests = s.index.manifests := hlast.manifests
  rw [hm] at hrest hindex
  have hsound : Sound X D s2.view fun a => need a
      + (s1.index.manifests[t.key]?).elim 0 fun old => old.chunks.count a := by
    rw [hold]
    exact (hlast.put _).frame hindex hfiles
  obtain ⟨rfl, hs', hman⟩ := releasePrevious_ok hsound hrest
  refine ⟨hs', ?_, hT.received.size, rfl, rfl, rfl, hlast.known⟩
  rw [hman, hindex]
  exact (FinMap.get_insert _ _ _ _).trans (if_pos rfl)

/-! ## Every session -/

/-- The object can be read, whatever goes wrong in the end. -/
theorem read_of_describes {engine : StorageEngine} {s : Store} {key : String} {m : MediaManifest}
    {b : Bytes} (hinj : Set.InjOn X.sha256 D) (hs : Sound X D s.view need) (hneed : ∀ a, 0 ≤ need a)
    (hm : s.index.manifests[key]? = some m) (hd : Describes X D m b) :
    returned (engine.read X key s) = .ok b := by
  let u : Store := { s with attached := true }
  have hagree : Agrees (engine.read X key) s u := read_agrees engine rfl fun _ _ _ _ => rfl
  have hread : Does (lens X false) (engine.read X key) s.view (.ok b) s.view :=
    does_read engine hs hneed hinj hm hd
  obtain ⟨u', hrun, -⟩ := hread u ⟨rfl, fun hl => by cases hl⟩ rfl
  rw [hagree.returned_eq, hrun, returned_result]

/-- A session as it begins. -/
theorem Sim.takes {w : World} {st : Spec} (h : Sim X D w st)
    (io : Stream' IoPlan) {key contentType : String} {metadata : List (String × String)} {s : Store}
    (hbegin : w.engine.beginStore key contentType metadata (w.withIo io).store = .ok t s) :
    s.attached = true ∧ Takes X D (needOf w.sessions) t s.view [] ∧ t.key = key := by
  rw [beginStore_eq] at hbegin
  cases hb : Spec.mayBegin w.engine key with
  | error e =>
    rw [hb] at hbegin
    cases hbegin
  | ok u =>
    rw [hb] at hbegin
    cases hbegin
    have hbegun : Does (lens X true) _ w.store.view _ w.store.view ∧ _ :=
      does_beginStore h contentType metadata hb
    obtain ⟨-, hreceives⟩ := hbegun
    refine ⟨h.healthy.1, ⟨?_, hreceives⟩, rfl⟩
    exact (h.sound.weaken fun a => by simp [StoreSession.holds, StorageEngine.newSession]).frame rfl rfl

/-- **A session commits what it accepted.** Whatever the file system does while a session is written to
and finished: if no call of `write` loses anything and `finish` returns `Ok`, the object is what the
calls accepted; if exactly one does, it is not. -/
theorem session_commits_accepted (hX : X.Lawful) (engine : StorageEngine) (dataDir : String)
    (calls : List Call) (hsize : 0 < engine.chunkSize) (hsized : ∀ call ∈ calls, call.Sized)
    (key contentType : String) (metadata : List (String × String)) (ds : List Bytes)
    (io : Stream' IoPlan) {w : World}
    (hw : w = (((World.fresh engine dataDir (Stream'.const .ok)).run X calls).1).withIo io)
    {t : StoreSession} {s : Store}
    (hbegin : w.engine.beginStore key contentType metadata w.store = .ok t s)
    (hfree : Set.InjOn X.sha256 (pieces ((Spec.fresh engine).receivedIn calls
      ++ StoreSession.receivedWith X ds (t, s))))
    {object : Except Fail Bytes}
    (hfinish : w.engine.committed X (StoreSession.writeEach X ds (t, s)).2 = some object) :
    (StoreSession.losses X ds (t, s) = 0 → object = .ok (StoreSession.writeEach X ds (t, s)).1) ∧
      (StoreSession.losses X ds (t, s) = 1 →
        object ≠ .ok (StoreSession.writeEach X ds (t, s)).1) := by
  obtain ⟨hsim, -⟩ := Sim.run hX hfree calls (Sim.fresh hsize dataDir) hsized fun p ⟨b, hb, hp⟩ =>
    ⟨b, List.mem_append_left _ hb, hp⟩
  subst hw
  obtain ⟨hattached, htakes, hkey⟩ := hsim.takes io hbegin
  obtain ⟨b', t', s', hend, hs', htakes', hset, hknown, hall, hone⟩ :=
    writeEach_ends hattached htakes fun p ⟨b, hb, hp⟩ => ⟨b, List.mem_append_right _ hb, hp⟩
  have hkey' : t'.key = key := (congrArg (fun p => p.2.2.1) hset).trans hkey
  rw [hend, StorageEngine.committed, hkey'] at hfinish
  cases hrun : StoreSession.finish X (t', s') with
  | error e p =>
    rw [hrun] at hfinish
    cases hfinish
  | ok m p =>
    obtain ⟨hsound, hm, hd⟩ := finish_ok hs' htakes' hknown hrun
    rw [hkey'] at hm
    rw [hrun] at hfinish
    have hobject : object = .ok b' := (Option.some.inj hfinish).symm.trans
      (read_of_describes hfree hsound (fun a => needOf_nonneg _ a) hm hd)
    refine ⟨fun h0 => ?_, fun h1 he => ?_⟩
    · rw [hobject, hall h0, List.nil_append]
    · exact hone h1 (congrArg List.length (Except.ok.inj (hobject.symm.trans he)))

/-- The write of one chunk file fails. -/
def writeFailsAfter (n : Nat) : Stream' IoPlan := IoPlan.once n { IoPlan.ok with writeFails := true }

/-- A session with chunks of two bytes. -/
def sessionOfTwos (io : Stream' IoPlan) : StoreSession × Store :=
  (StorageEngine.newSession ⟨2, 0, true⟩ "a" "" [], .emptyDir "data" io)

/-- The second call fails in its first flush and can be made again. -/
theorem session_commits_accepted_retry :
    StorageEngine.committed Crates.reference ⟨2, 0, true⟩
      (StoreSession.writeEach Crates.reference [[2, 1], [2, 3, 1, 4], [2, 3, 1, 4]]
        (sessionOfTwos (writeFailsAfter 2))).2 = some (.ok [2, 1, 2, 3, 1, 4]) := by
  obtain ⟨object, hfinish⟩ : ∃ object, StorageEngine.committed Crates.reference ⟨2, 0, true⟩
      (StoreSession.writeEach Crates.reference [[2, 1], [2, 3, 1, 4], [2, 3, 1, 4]]
        (sessionOfTwos (writeFailsAfter 2))).2 = some object :=
    Option.isSome_iff_exists.1 (by decide +kernel)
  have hobject := (session_commits_accepted Crates.reference_lawful ⟨2, 0, true⟩ "data" [] (by decide)
    (by simp) "a" "" [] [[2, 1], [2, 3, 1, 4], [2, 3, 1, 4]] (writeFailsAfter 2) rfl rfl
    (reference_free (by decide +kernel)) hfinish).1 (by decide +kernel)
  rw [hfinish, hobject]
  decide +kernel

/-- The second call fails in a flush that has the byte of the first. -/
theorem session_commits_hole :
    (StoreSession.writeEach Crates.reference [[1], [2]] (sessionOfTwos (writeFailsAfter 0))).1 = [1] ∧
      StorageEngine.committed Crates.reference ⟨2, 0, true⟩
        (StoreSession.writeEach Crates.reference [[1], [2]]
          (sessionOfTwos (writeFailsAfter 0))).2 = some (.ok []) := by
  decide +kernel

end KaidaDB
