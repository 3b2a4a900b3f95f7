import KaidaDB.Lib.Alike
import KaidaDB.Storage.Proof.FileRules
import KaidaDB.Storage.Proof.LogFacts

/-!
# A store with worn chunk files

`Worn X D B s t`: `t` is `s` with other chunk files under the names in `B`, of which none is taken for a
chunk that it is not. Whether a chunk has a file decides only whether one is written or removed, and what is
in it is only seen by those who read it. So the operations that change objects do the same to both, and leave
the second one worn (`Worn.write`, `Worn.finish`, `Worn.delete`, `Worn.rename`). A pass of `gc` judges each
file alone (`Swept`).
-/

namespace KaidaDB

open Std Effects

variable {X : Crates} {D : Set Bytes} {B : Set String} {s t : Store}

/-- A file that is accepted holds the chunk it is named after. -/
def Honest (X : Crates) (D : Set Bytes) (files : ExtTreeMap String ChunkFile) : Prop :=
  ∀ (id : ChunkId) f data, files[id.toHex]? = some f → decodeChunk X f.bytes = .ok data →
    data ∈ D ∧ id = ChunkId.fromData X data

structure Worn (X : Crates) (D : Set Bytes) (B : Set String) (s t : Store) : Prop where
  rest : t = { s with files := t.files }
  calm : s.io = Stream'.const .ok
  honest : Honest X D t.files
  spared : ∀ hex ∉ B, t.files[hex]? = s.files[hex]?

/-! ## Files -/

theorem Honest.insert {files : ExtTreeMap String ChunkFile} (h : Honest X D files) {hex : String}
    {f : ChunkFile} (hf : ∀ id data, id.toHex = hex → decodeChunk X f.bytes = .ok data →
      data ∈ D ∧ id = ChunkId.fromData X data) : Honest X D (files.insert hex f) := by
  intro id g data hg hdata
  rw [FinMap.get_insert] at hg
  split_ifs at hg with heq
  · cases hg
    exact hf id data heq.symm hdata
  · exact h id g data hg hdata

theorem Honest.erase {files : ExtTreeMap String ChunkFile} (h : Honest X D files) (hex : String) :
    Honest X D (files.erase hex) := by
  intro id g data hg hdata
  rw [FinMap.get_erase] at hg
  split_ifs at hg
  exact h id g data hg hdata

/-- The decoder gives back what has been encoded. -/
theorem Honest.encoded {d : Bytes} (hd : d ∈ D) (hlen : d.length ≤ isizeMax) (id : ChunkId) (data : Bytes)
    (hid : id.toHex = (ChunkId.fromData X d).toHex) (hdata : decodeChunk X (encodeChunk X d) = .ok data) :
    data ∈ D ∧ id = ChunkId.fromData X data := by
  rw [decodeChunk_encodeChunk X (by simp only [chunkHeaderSize, isizeMax] at *; omega)] at hdata
  cases hdata
  exact ⟨hd, ChunkId.toHex_injective hid⟩

/-! ## Operations -/

theorem writeChunk_calm {u : Store} (hu : u.io = Stream'.const .ok) (id : ChunkId) (d : Bytes) :
    BlobStore.writeChunk X id d u = .ok (BlobStore.chunkPath u.dataDir id) { u with
      files := if u.files.contains id.toHex then u.files
        else u.files.insert id.toHex ⟨encodeChunk X d, u.clock⟩ } := by
  have hexists : BlobStore.chunkExists id u = .ok (u.files.contains id.toHex) u := rfl
  rw [BlobStore.writeChunk, run_bind, run_get]
  dsimp only
  rw [run_bind, hexists]
  dsimp only
  split_ifs
  · rfl
  · rw [run_bind, BlobStore.createChunk, run_bind, nextPlan_calm hu]
    rfl

/-- A file that is there is not written again. -/
theorem get_written (files : ExtTreeMap String ChunkFile) (name hex : String) (f : ChunkFile) :
    (if files.contains name then files else files.insert name f)[hex]?
      = if name = hex then some (files[hex]?.getD f) else files[hex]? := by
  split_ifs with hfile hname hname
  · subst hname
    obtain ⟨g, hg⟩ : ∃ g, files[name]? = some g := Option.isSome_iff_exists.1 (by simpa using hfile)
    rw [hg]
    rfl
  · rfl
  · subst hname
    rw [FinMap.get_insert, if_pos rfl, show files[name]? = none by simpa using hfile]
    rfl
  · rw [FinMap.get_insert, if_neg hname]

theorem deleteChunk_calm {u : Store} (hu : u.io = Stream'.const .ok) (id : ChunkId) :
    BlobStore.deleteChunk id u = .ok () { u with files := u.files.erase id.toHex } := by
  rw [BlobStore.deleteChunk, run_bind, run_get]
  dsimp only
  split_ifs with hfile
  · rw [run_bind, nextPlan_calm hu]
    rfl
  · rw [FinMap.erase_of_none (by simpa using hfile)]
    rfl

/-- A program that does the same to both stores. -/
abbrev Worn.Same (X : Crates) (D : Set Bytes) (B : Set String) {α : Type} (x : M α) (s t : Store) : Prop :=
  Alike (Worn X D B) (fun _ => Worn X D B) x s t

namespace Worn

variable (h : Worn X D B s t)
include h

theorem index : t.index = s.index := by rw [h.rest]

theorem clock : t.clock = s.clock := by rw [h.rest]

theorem io : t.io = Stream'.const .ok := by
  rw [h.rest]
  exact h.calm

/-- A change that has nothing to do with the files. -/
theorem modify {f : Store → Store} (hf : ∀ s files, f { s with files } = { f s with files })
    (hio : ∀ s, (f s).io = s.io) : Worn.Same X D B (modify f : M Unit) s t := by
  have hfiles : ∀ u : Store, (f u).files = u.files := fun u =>
    (congrArg Store.files (hf u u.files) : (f { u with files := u.files }).files = _)
  refine .ok () (f s) (f t) rfl rfl ⟨?_, (hio s).trans h.calm, ?_, ?_⟩
  · have heq : f t = { f s with files := t.files } := by rw [h.rest, hf]
    rw [heq]
  · rw [hfiles]
    exact h.honest
  · rw [hfiles, hfiles]
    exact h.spared

theorem nextPlan : Alike (Worn X D B) (fun plan s t => plan = .ok ∧ Worn X D B s t) nextPlan s t :=
  .ok .ok s t (nextPlan_calm h.calm) (nextPlan_calm h.io) ⟨rfl, h⟩

theorem writeLog (b : Bytes) : Worn.Same X D B (Index.writeLog b) s t :=
  h.modify
    (fun s files => by
      dsimp only
      split_ifs <;> rfl)
    (fun s => by split_ifs <;> rfl)

theorem appendEntry (entry : LogEntry) (sync : Bool) :
    Worn.Same X D B (Index.appendEntry X entry sync) s t := by
  refine Alike.bind h.nextPlan fun plan s t hplan => ?_
  obtain ⟨rfl, h⟩ := hplan
  exact Alike.bind (h.writeLog _) fun _ s t h => h.modify (fun _ _ => rfl) fun _ => rfl

theorem compact : Worn.Same X D B (Index.compact X) s t := by
  have hcompact : ∀ {u : Store}, u.io = Stream'.const .ok → Index.compact X u = .ok () { u with
      log := logBytes X (Index.liveEntries u.index), attached := true,
      logEntries := (Index.liveEntries u.index).length } := by
    intro u hu
    rw [Index.compact, run_bind, run_get]
    dsimp only
    rw [hu]
    rfl
  refine .ok () _ _ (hcompact h.calm) (hcompact h.io) ⟨?_, h.calm, h.honest, h.spared⟩
  rw [h.index, h.rest]

omit h in
theorem ignoreError {α : Type} {x : M α} (hx : Worn.Same X D B x s t) :
    Worn.Same X D B (KaidaDB.ignoreError x) s t := by
  refine Alike.tryCatch (E := Worn X D B) (Alike.map _ hx) fun e s t h => ?_
  cases e with
  | error e => exact Alike.pure h
  | panic message => exact Alike.throw h
  | diverges => exact Alike.throw h

theorem maybeCompact : Worn.Same X D B (Index.maybeCompact X) s t := by
  refine Alike.get_bind ?_ ?_
  · rw [h.rest]
  · split_ifs
    · exact Alike.pure h
    · exact Alike.pure h
    · exact ignoreError h.compact

/-- An append and the change in memory after it. -/
theorem logged (entry : LogEntry) (sync : Bool) {α : Type} {R : α → Store → Store → Prop} {k : Unit → M α}
    (hk : ∀ s t, Worn X D B s t → Alike (Worn X D B) R (k ()) s t) :
    Alike (Worn X D B) R (Index.appendEntry X entry sync >>= fun _ =>
      (MonadState.modifyGet fun s => ((), { s with index := applyEntry s.index entry }) : M Unit) >>= k) s t :=
  Alike.bind (h.appendEntry entry sync) fun _ _ _ h =>
    Alike.bind (h.modify (fun _ _ => rfl) fun _ => rfl) fun _ s t h => hk s t h

theorem putManifest (m : MediaManifest) : Worn.Same X D B (Index.putManifest X m) s t :=
  h.logged _ _ fun _ _ h => h.maybeCompact

theorem deleteManifest (key : String) : Worn.Same X D B (Index.deleteManifest X key) s t :=
  h.logged _ _ fun _ _ h => h.maybeCompact

theorem putChunkLocation (id : ChunkId) (loc : ChunkLocation) :
    Worn.Same X D B (Index.putChunkLocation X id loc) s t :=
  Alike.bind (h.appendEntry _ _) fun _ _ _ h => h.modify (fun _ _ => rfl) fun _ => rfl

theorem deleteChunkLocation (id : ChunkId) : Worn.Same X D B (Index.deleteChunkLocation X id) s t :=
  Alike.bind (h.appendEntry _ _) fun _ _ _ h => h.modify (fun _ _ => rfl) fun _ => rfl

/-- What is read off the index or the clock. -/
theorem reads {α : Type} (g : Store → α) (hg : g t = g s) :
    Worn.Same X D B (do return g (← get) : M α) s t :=
  .ok (g s) s t rfl (congrArg (EStateM.Result.ok · t) hg) h

theorem getManifest (key : String) : Worn.Same X D B (Index.getManifest key) s t :=
  h.reads (fun s => s.index.manifests[key]?) (by rw [h.index])

theorem getChunkLocation (id : ChunkId) : Worn.Same X D B (Index.getChunkLocation id) s t :=
  h.reads (fun s => s.index.chunkLocations[id.toHex]?) (by rw [h.index])

theorem nowSecs : Worn.Same X D B KaidaDB.nowSecs s t :=
  h.reads (fun s => if s.clock < 0 then 0 else s.clock / 10 ^ 9) (by rw [h.clock])

theorem listManifests (keyPrefix : String) (limit : Nat) (cursor : String) :
    Worn.Same X D B (Index.listManifests keyPrefix limit cursor) s t :=
  h.reads (fun s => Index.listPage keyPrefix limit cursor s.index) (by rw [h.index])

theorem addChunkRef (id : ChunkId) (path : String) : Worn.Same X D B (Index.addChunkRef X id path) s t :=
  Alike.bind (h.getChunkLocation id) fun _ _ _ h => h.putChunkLocation id _

theorem decrement (id : ChunkId) : Worn.Same X D B (Index.decrementChunkRef X id) s t := by
  refine Alike.bind (h.getChunkLocation id) fun found s t h => ?_
  cases found with
  | none => exact Alike.pure h
  | some loc =>
    dsimp only
    split_ifs
    · exact Alike.bind (h.deleteChunkLocation id) fun _ _ _ h => Alike.pure h
    · exact Alike.bind (h.putChunkLocation id _) fun _ _ _ h => Alike.pure h

theorem writeChunk {d : Bytes} (hd : d ∈ D) (hlen : d.length ≤ isizeMax) :
    Worn.Same X D B (BlobStore.writeChunk X (ChunkId.fromData X d) d) s t := by
  have hwritten := writeChunk_calm (X := X) h.io (ChunkId.fromData X d) d
  have hpath : BlobStore.chunkPath t.dataDir (ChunkId.fromData X d)
      = BlobStore.chunkPath s.dataDir (ChunkId.fromData X d) := by rw [h.rest]
  rw [hpath] at hwritten
  refine .ok _ _ _ (writeChunk_calm h.calm _ _) hwritten ⟨?_, h.calm, ?_, fun hex hB => ?_⟩
  · rw [h.rest]
  · dsimp only
    split_ifs
    · exact h.honest
    · exact h.honest.insert (Honest.encoded hd hlen)
  · dsimp only
    rw [get_written, get_written, h.spared hex hB, h.clock]

theorem deleteChunk (id : ChunkId) : Worn.Same X D B (BlobStore.deleteChunk id) s t := by
  refine .ok () _ _ (deleteChunk_calm h.calm id) (deleteChunk_calm h.io id)
    ⟨?_, h.calm, h.honest.erase _, fun hex hB => ?_⟩
  · rw [h.rest]
  · dsimp only
    rw [FinMap.get_erase, FinMap.get_erase, h.spared hex hB]

end Worn

/-! ## Sessions -/

/-- The same session, in `K`, on the two stores. -/
structure Worn.Both (X : Crates) (D : Set Bytes) (B : Set String) (K : StoreSession → Prop)
    (p q : StoreSession × Store) : Prop where
  session : p.1 = q.1
  kept : K p.1
  worn : Worn X D B p.2 q.2

/-- A program that does the same to a session on both stores, and leaves it in `K` if it does not fail. -/
abbrev Worn.Session (X : Crates) (D : Set Bytes) (B : Set String) (K : StoreSession → Prop) {α : Type}
    (x : SM α) (p q : StoreSession × Store) : Prop :=
  Alike (Worn.Both X D B fun _ => True) (fun _ => Worn.Both X D B K) x p q

/-- What is in the buffer of a session and what comes after it. -/
structure StoreSession.Expects (D : Set Bytes) (rest : Bytes) (session : StoreSession) : Prop where
  small : session.chunkSize ≤ isizeMax
  room : session.buf.length ≤ session.chunkSize
  known : ∀ q, q <:+: session.buf ++ rest → q ∈ D

namespace Worn

variable {α β : Type} {session : StoreSession} {K : StoreSession → Prop}

theorem session_bind {E : StoreSession × Store → StoreSession × Store → Prop}
    {Q : β → StoreSession × Store → StoreSession × Store → Prop} {x : SM α} {f : α → SM β}
    {p q : StoreSession × Store} (hx : Alike E (fun _ => Both X D B K) x p q)
    (hf : ∀ a session s t, K session → Worn X D B s t → Alike E Q (f a) (session, s) (session, t)) :
    Alike E Q (x >>= f) p q := by
  refine Alike.bind hx fun a p q hboth => ?_
  obtain ⟨session, s⟩ := p
  obtain ⟨session', t⟩ := q
  obtain ⟨hsession, hK, h⟩ := hboth
  obtain rfl : session = session' := hsession
  exact hf a session s t hK h

/-- What is done to the store leaves the session as it is. -/
theorem onStore {x : M α} (hx : Worn.Same X D B x s t) :
    Worn.Session X D B (· = session) (KaidaDB.onStore x) (session, s) (session, t) := by
  cases hx with
  | ok a s' t' hs ht h =>
    exact .ok a (session, s') (session, t') (by rw [KaidaDB.onStore, hs]) (by rw [KaidaDB.onStore, ht])
      ⟨rfl, rfl, h⟩
  | error e s' t' hs ht h =>
    exact .error e (session, s') (session, t') (by rw [KaidaDB.onStore, hs]) (by rw [KaidaDB.onStore, ht])
      ⟨rfl, trivial, h⟩

variable (h : Worn X D B s t)
include h

theorem onSession {f : StoreSession → StoreSession} (hf : K (f session)) :
    Worn.Session X D B K (KaidaDB.onSession f) (session, s) (session, t) :=
  .ok () (f session, s) (f session, t) rfl rfl ⟨rfl, hf, h⟩

theorem session_pure {a : α} (hK : K session) :
    Worn.Session X D B K (pure a : SM α) (session, s) (session, t) := Alike.pure ⟨rfl, hK, h⟩

/-- The buffer is empty afterwards. -/
theorem flushChunk (hD : session.buf ∈ D) (hlen : session.buf.length ≤ isizeMax) :
    Worn.Session X D B (fun session' => session'.buf = [] ∧ session'.chunkSize = session.chunkSize)
      (StoreSession.flushChunk X) (session, s) (session, t) := by
  refine Alike.get_bind rfl ?_
  dsimp only
  split_ifs with hempty
  · exact h.session_pure ⟨hempty, rfl⟩
  · refine session_bind (h.onSession (K := (· = { session with buf := [] })) rfl) fun _ _ s t hK h => ?_
    subst hK
    refine session_bind (onStore (h.writeChunk hD hlen)) fun path _ s t hK h => ?_
    subst hK
    refine session_bind (onStore (h.addChunkRef _ path)) fun _ _ s t hK h => ?_
    subst hK
    exact h.onSession ⟨rfl, rfl⟩

theorem writeLoop (n : Nat) {data later : Bytes} (hfed : session.Expects D (data ++ later)) :
    Worn.Session X D B (StoreSession.Expects D later) (StoreSession.writeLoop X n data) (session, s)
      (session, t) := by
  induction n generalizing data session s t with
  | zero =>
    rw [StoreSession.writeLoop]
    split_ifs with hdata
    · subst hdata
      exact h.session_pure hfed
    · exact Alike.throw ⟨rfl, trivial, h⟩
  | succ n ih =>
    rw [StoreSession.writeLoop]
    split_ifs with hdata
    · subst hdata
      exact h.session_pure hfed
    · refine Alike.get_bind rfl ?_
      dsimp only
      generalize htaken : min (session.chunkSize - session.buf.length) data.length = taken
      have hnext : ({ session with buf := session.buf ++ data.take taken } : StoreSession).Expects D
          (data.drop taken ++ later) := by
        refine ⟨hfed.small, ?_, fun q hq => hfed.known q ?_⟩
        · have := hfed.room
          simp only [List.length_append, List.length_take]
          omega
        · rwa [List.append_assoc, ← List.append_assoc (data.take taken), List.take_append_drop] at hq
      refine session_bind (h.onSession (K := (· = { session with buf := session.buf ++ data.take taken }))
        rfl) fun _ _ s t hK h => ?_
      subst hK
      refine Alike.get_bind rfl ?_
      dsimp only
      split_ifs
      · refine session_bind (h.flushChunk (hnext.known _ (List.infix_append' [] _ _))
          (hnext.room.trans hnext.small)) fun _ session' s t hK h => ?_
        obtain ⟨hbuf, hsize⟩ := hK
        refine ih h ⟨hsize ▸ hnext.small, by simp [hbuf], fun q hq => hnext.known q ?_⟩
        rw [hbuf] at hq
        exact hq.trans (List.suffix_append _ _).isInfix
      · exact ih h hnext

theorem write {data later : Bytes} (hfed : session.Expects D (data ++ later)) :
    Worn.Session X D B (StoreSession.Expects D later) (StoreSession.write X data) (session, s)
      (session, t) := by
  refine Alike.get_bind rfl ?_
  dsimp only
  split_ifs
  · exact Alike.throw_bind ⟨rfl, trivial, h⟩
  · exact h.writeLoop _ hfed

/-- Dropping a reference, and the file of a chunk with the last one. -/
theorem release (id : ChunkId) {unlink : M Unit}
    (hunlink : ∀ s t, Worn X D B s t → Worn.Same X D B unlink s t) :
    Worn.Same X D B (do if ← Index.decrementChunkRef X id then unlink) s t := by
  refine Alike.bind (h.decrement id) fun last s t h => ?_
  split_ifs
  · exact hunlink s t h
  · exact Alike.pure h

theorem abort : Worn.Session X D B (fun _ => True) (StoreSession.abort X) (session, s) (session, t) := by
  refine Alike.get_bind rfl ?_
  refine session_bind (h.onSession (K := (· = { session with referencedChunks := [] })) rfl)
    fun _ _ s t hK h => ?_
  subst hK
  refine (onStore (Alike.forM (fun id s t h => ?_) _ h)).mono fun _ _ _ hboth =>
    ⟨hboth.session, trivial, hboth.worn⟩
  exact ignoreError (h.release id fun s t h => ignoreError (h.deleteChunk id))

theorem finish (hfed : session.Expects D []) :
    Worn.Session X D B (fun _ => True) (StoreSession.finish X) (session, s) (session, t) := by
  refine session_bind (h.flushChunk (hfed.known _ (by simp)) (hfed.room.trans hfed.small))
    fun _ session s t _ h => ?_
  refine Alike.get_bind rfl ?_
  dsimp only
  refine session_bind (onStore h.nowSecs) fun now _ s t hK h => ?_
  subst hK
  refine session_bind (onStore (h.getManifest _)) fun previous _ s t hK h => ?_
  subst hK
  refine session_bind (onStore (h.putManifest _)) fun _ _ s t hK h => ?_
  subst hK
  cases previous with
  | none => exact h.session_pure trivial
  | some old =>
    refine session_bind (onStore (Alike.forM (fun id s t h => ?_) _ h)) fun _ _ s t _ h =>
      h.session_pure trivial
    exact h.release id fun s t h => ignoreError (h.deleteChunk id)

omit h in
/-- A session that is dropped in the end. -/
theorem withSession {x : SM α} (hx : Worn.Session X D B K x (session, s) (session, t)) :
    Worn.Same X D B (KaidaDB.withSession session x) s t := by
  cases hx with
  | ok a p q hs ht hboth =>
    exact .ok a p.2 q.2 (by rw [KaidaDB.withSession, hs]) (by rw [KaidaDB.withSession, ht]) hboth.worn
  | error e p q hs ht hboth =>
    exact .error e p.2 q.2 (by rw [KaidaDB.withSession, hs]) (by rw [KaidaDB.withSession, ht]) hboth.worn

/-! ## Calls -/

theorem check (x : Except Fail α) : Worn.Same X D B (KaidaDB.check x : M α) s t := by
  cases x with
  | ok a => exact Alike.pure h
  | error e => exact Alike.throw h

/-- The session is new. -/
theorem beginStore (engine : StorageEngine) (key contentType : String)
    (metadata : List (String × String)) :
    Alike (Worn X D B) (fun session s t => (session.buf = [] ∧ session.chunkSize ≤ isizeMax) ∧ Worn X D B s t)
      (engine.beginStore key contentType metadata) s t := by
  refine Alike.bind (h.check _) fun _ s t h => ?_
  split_ifs with hsize
  · exact Alike.throw_bind h
  · exact Alike.pure ⟨⟨rfl, Nat.le_of_not_lt hsize⟩, h⟩

theorem delete (key : String) : Worn.Same X D B (StorageEngine.delete X key) s t := by
  refine Alike.bind (h.getManifest key) fun found s t h => ?_
  cases found with
  | none => exact Alike.pure h
  | some m =>
    refine Alike.bind (Alike.forM (fun id s t h => ?_) _ h) fun _ s t h =>
      Alike.bind (h.deleteManifest key) fun _ _ _ h => Alike.pure h
    exact h.release id fun s t h => h.deleteChunk id

theorem rename (fromKey toKey : String) : Worn.Same X D B (StorageEngine.rename X fromKey toKey) s t := by
  refine Alike.bind (h.check _) fun _ s t h => ?_
  split_ifs
  · exact Alike.throw_bind h
  · refine Alike.bind (h.getManifest fromKey) fun found s t h => ?_
    cases found with
    | none => exact Alike.throw h
    | some manifest =>
      refine Alike.bind (h.getManifest toKey) fun target s t h => ?_
      split_ifs
      · exact Alike.throw_bind h
      · refine Alike.bind h.nowSecs fun now s t h => ?_
        refine Alike.bind (h.putManifest _) fun _ s t h => ?_
        exact Alike.bind (h.deleteManifest _) fun _ _ _ h => Alike.pure h

/-- A new process reads the same log. -/
theorem openWith (durability : Durability) {s' : Store} (hopen : Index.openWith X s durability = .ok s') :
    ∃ t', Index.openWith X t durability = .ok t' ∧ Worn X D B s' t' := by
  cases hlog : Index.openLog X s.log with
  | error e =>
    rw [Index.openWith, hlog] at hopen
    cases hopen
  | ok opened =>
    obtain ⟨state, entries, log⟩ := opened
    have hlog' : Index.openLog X t.log = .ok (state, entries, log) := by rw [h.rest, hlog]
    rw [openWith_eq hlog] at hopen
    cases hopen
    refine ⟨_, openWith_eq hlog', ?_, h.calm, h.honest, h.spared⟩
    rw [h.rest]

/-- The clock shows another time. -/
theorem tick (now : Int) : Worn X D B { s with clock := now } { t with clock := now } :=
  ⟨by rw [h.rest], h.calm, h.honest, h.spared⟩

end Worn

/-! ## Garbage collection -/

/-- The stores after a pass of `gc` over each of them. -/
theorem Worn.swept {keep : String → ChunkFile → Bool} (h : Worn X D B s t) {s' t' : Store}
    (hs : Swept keep s s') (ht : Swept keep t t') : Worn X D B s' t' := by
  refine ⟨?_, ?_, fun id f data hf => ?_, fun hex hB => ?_⟩
  · rw [ht.rest, h.rest, hs.rest]
  · rw [hs.rest]
    exact h.calm
  · rw [ht.files, Option.filter_eq_some_iff] at hf
    exact h.honest id f data hf.1
  · rw [ht.files, hs.files, h.spared hex hB]

end KaidaDB
