import KaidaDB.Concurrent.Reader
import KaidaDB.Concurrent.Proof.Gc
import KaidaDB.Storage.Proof.Refinement

/-!
# A read returns one version

`Machine.Holds`: every chunk file holds the bytes of its id, every visible manifest and every
manifest about to become visible spells the bytes of its object, and every session has taken its
upload as far as it has got. Each action keeps this (`Machine.Holds.step`), whatever it removes. So
a file that the reader finds, be it one that another upload has put back, has the bytes that the
manifest of its lookup asks for, and the read fails or returns the object of that moment
(`read_unmixed`).
-/

namespace KaidaDB

open Std Effects

variable {X : Crates} {D : Set Bytes}

/-! ## What ids and files stand for -/

/-- The chunks are those of byte strings of `D`, which make up the bytes. -/
inductive Spells (X : Crates) (D : Set Bytes) : List ChunkId → Bytes → Prop where
  | nil : Spells X D [] []
  | cons {p : Bytes} {chunks : List ChunkId} {d : Bytes} (hp : p ∈ D) (h : Spells X D chunks d) :
    Spells X D (ChunkId.fromData X p :: chunks) (p ++ d)

theorem Spells.snoc {chunks : List ChunkId} {d p : Bytes} (h : Spells X D chunks d) (hp : p ∈ D) :
    Spells X D (chunks ++ [ChunkId.fromData X p]) (d ++ p) := by
  induction h with
  | nil => simpa using Spells.cons hp .nil
  | @cons q chunks d hq h ih =>
    rw [List.cons_append, List.append_assoc]
    exact .cons hq ih

/-- Every file holds a byte string of `D` under the id of its contents. -/
def Encoded (X : Crates) (D : Set Bytes) (files : ExtTreeMap String ChunkFile) : Prop :=
  ∀ (hex : String) f, files[hex]? = some f →
    ∃ d ∈ D, d.length ≤ isizeMax ∧ hex = (ChunkId.fromData X d).toHex ∧ f.bytes = encodeChunk X d

/-- What is read from a file has the id of the file. -/
theorem Encoded.opened {s : Store} (h : Encoded X D s.files) {id : ChunkId} {data : Bytes}
    (hopen : BlobStore.openChunk X s id = .ok data) : data ∈ D ∧ id = ChunkId.fromData X data := by
  unfold BlobStore.openChunk at hopen
  cases hf : s.files[id.toHex]? with
  | none =>
    rw [hf] at hopen
    cases hopen
  | some f =>
    obtain ⟨d, hd, hlen, hhex, hbytes⟩ := h _ f hf
    have hdec : decodeChunk X (encodeChunk X d) = .ok d :=
      decodeChunk_encodeChunk X (by simp only [chunkHeaderSize, isizeMax] at *; omega)
    simp only [hf, hbytes, hdec, Except.ok.injEq] at hopen
    subst hopen
    exact ⟨hd, ChunkId.toHex_injective hhex⟩

/-- Files that are at most removed. -/
theorem Encoded.mono {files files' : ExtTreeMap String ChunkFile} (h : Encoded X D files)
    (hsub : ∀ (hex : String) f, files'[hex]? = some f → files[hex]? = some f) :
    Encoded X D files' := fun hex f hf => h hex f (hsub hex f hf)

theorem Encoded.insert {files : ExtTreeMap String ChunkFile} (h : Encoded X D files) {d : Bytes}
    (hd : d ∈ D) (hlen : d.length ≤ isizeMax) (mtime : Int) :
    Encoded X D (files.insert (ChunkId.fromData X d).toHex ⟨encodeChunk X d, mtime⟩) := by
  intro hex f hf
  rw [FinMap.get_insert] at hf
  split_ifs at hf with hx
  · cases hf
    exact ⟨d, hd, hlen, hx.symm, rfl⟩
  · exact h hex f hf

theorem Encoded.erase {files : ExtTreeMap String ChunkFile} (h : Encoded X D files) (a : String) :
    Encoded X D (files.erase a) := h.mono fun hex f hf => by
  rw [FinMap.get_erase] at hf
  split_ifs at hf
  exact hf

/-! ## What an agent has taken of its upload -/

/-- A session whose chunks are those of what its hasher was fed. -/
structure StoreSession.Fed (X : Crates) (D : Set Bytes) (s : StoreSession) : Prop where
  small : s.chunkSize ≤ isizeMax
  room : s.buf.length ≤ s.chunkSize
  chunks : Spells X D s.chunks s.hasher

/-- The data that `write` has yet to take. -/
def Next.rest : Next → Bytes
  | loop rest => rest
  | commit => []

/-- What an agent has of the bytes its upload has accepted: in its session and on the way into it,
or spelled by its manifest. -/
def Agent.Carries (X : Crates) (D : Set Bytes) (sent : Option Bytes) : Agent → Prop
  | .idle s => s.Fed X D ∧ sent = some (s.hasher ++ s.buf)
  | .writing s rest => s.Fed X D ∧ sent = some (s.hasher ++ s.buf ++ rest)
  | .checking s chunk next | .creating s chunk next | .referencing s chunk next =>
    s.Fed X D ∧ s.buf = [] ∧ chunk.length ≤ isizeMax ∧ sent = some (s.hasher ++ chunk ++ next.rest)
  | .committing s => s.Fed X D ∧ s.buf = [] ∧ sent = some s.hasher
  | .locking _ manifest | .looking _ manifest | .putting _ manifest _ =>
    ∃ d, sent = some d ∧ Spells X D manifest.chunks d
  | _ => True

namespace Machine

variable {m : Machine} {a : Nat} {sent : Option Bytes}

/-- The agents after a move of `a`: the others are as they were, and `a`, if it is still there,
meets a condition. -/
def Onward (a : Nat) (P : Agent → Prop) (m m' : Machine) : Prop :=
  ∀ (b : Nat) agent, m'.agents[b]? = some agent →
    if b = a then P agent else m.agents[b]? = some agent

namespace Onward

variable {P : Agent → Prop} {old new : Agent}

theorem become (s : Store) (hnew : P new) :
    Onward a P m (({ m with store := s } : Machine).become a new) := by
  intro b agent hb
  split_ifs with hba
  · subst hba
    rw [become_get] at hb
    cases hb
    exact hnew
  · rwa [become_get_ne _ _ hba] at hb

theorem leave (s : Store) (old : Agent) :
    Onward a P m (({ m with store := s } : Machine).leave a old) := by
  intro b agent hb
  simp only [Machine.leave, FinMap.get_erase] at hb
  split_ifs at hb with hab
  rw [if_neg (Ne.symm hab)]
  exact hb

theorem refl (ha : ∀ agent, m.agents[a]? = some agent → P agent) : Onward a P m m := by
  intro b agent hb
  split_ifs with hba
  · exact ha agent (hba ▸ hb)
  · exact hb

theorem lock (ha : m.agents[a]? = some old) (hold : P old) (hnew : P new) (key : String) :
    Onward a P m (m.lock a key new) := by
  unfold Machine.lock
  split_ifs
  · exact .refl fun agent hagent => by
      rw [ha] at hagent
      cases hagent
      exact hold
  · exact become (m := m) m.store hnew

/-- Whether the operation succeeds or fails. -/
theorem exec {α : Type} {x : M α} {ok : Machine → α → Machine} {failed : Machine → Machine}
    (hok : ∀ s v, Onward a P m (ok { m with store := s } v))
    (hfailed : ∀ s, Onward a P m (failed { m with store := s })) :
    Onward a P m (m.exec x ok failed) := by
  unfold Machine.exec
  split
  · exact hok _ _
  · exact hfailed _

end Onward

theorem resume_onward {session : StoreSession} {next : Next} (s : Store) (hfed : session.Fed X D)
    (hbuf : session.buf = []) (hsent : sent = some (session.hasher ++ next.rest)) :
    Onward a (Agent.Carries X D sent) m (({ m with store := s } : Machine).resume a session next) := by
  cases next with
  | loop rest => exact .become s ⟨hfed, by rw [hsent, hbuf, List.append_nil]; rfl⟩
  | commit => exact .become s ⟨hfed, hbuf, by rw [hsent, Next.rest, List.append_nil]⟩

theorem flush_onward {session : StoreSession} {next : Next} (hfed : session.Fed X D)
    (hsent : sent = some (session.hasher ++ session.buf ++ next.rest)) :
    Onward a (Agent.Carries X D sent) m (m.flush a session next) := by
  unfold Machine.flush
  split_ifs with hbuf
  · exact resume_onward m.store hfed hbuf (by rw [hsent, hbuf, List.append_nil])
  · exact .become m.store
      ⟨⟨hfed.small, Nat.zero_le _, hfed.chunks⟩, rfl, hfed.room.trans hfed.small, hsent⟩

/-- The session after it has taken as much as fits its buffer. -/
theorem fed_taken {session : StoreSession} (hfed : session.Fed X D) (rest : Bytes) :
    StoreSession.Fed X D { session with
      buf := session.buf ++ rest.take (min (session.chunkSize - session.buf.length) rest.length) } := by
  refine ⟨hfed.small, ?_, hfed.chunks⟩
  have hroom := hfed.room
  simp only [List.length_append, List.length_take]
  omega

/-- **What an agent carries on the way to its manifest.** -/
theorem advance_onward (hm : m.store.attached = true) (hcalm : m.store.view.Calm) {agent : Agent}
    (ha : m.agents[a]? = some agent) (hc : agent.Carries X D sent)
    (hD : ∀ d ∈ sent, ∀ p, p <:+: d → p ∈ D) :
    Onward a (Agent.Carries X D sent) m (m.advance X a agent) := by
  cases agent with
  | idle session =>
    refine .refl fun agent hagent => ?_
    rw [ha] at hagent
    cases hagent
    exact hc
  | writing session rest =>
    obtain ⟨hfed, hsent⟩ := hc
    have htaken := fed_taken hfed rest
    have hsplit : ∀ n, session.hasher ++ (session.buf ++ rest.take n) ++ rest.drop n
        = session.hasher ++ session.buf ++ rest := fun n => by simp
    simp only [advance]
    split_ifs with hrest
    · exact .become m.store ⟨hfed, by rw [hsent, hrest, List.append_nil]⟩
    · exact flush_onward htaken (hsent.trans (congrArg some (hsplit _).symm))
    · exact .become m.store ⟨htaken, hsent.trans (congrArg some (hsplit _).symm)⟩
  | checking session chunk next =>
    rw [advance]
    refine exec_of_does hm (does_chunkExists (X := X)) fun s _ _ => ?_
    split_ifs
    · exact .become s hc
    · exact .become s hc
  | creating session chunk next =>
    rw [advance]
    exact exec_of_does hm (does_createChunk hcalm.write) fun s _ _ => .become s hc
  | referencing session chunk next =>
    obtain ⟨hfed, hbuf, -, hsent⟩ := hc
    have hchunk : chunk ∈ D := hD _ hsent chunk ⟨_, _, rfl⟩
    rw [advance]
    refine exec_of_does hm (does_addChunkRef (hcalm.appends false)) fun s _ _ => ?_
    exact resume_onward s ⟨hfed.small, hfed.room, hfed.chunks.snoc hchunk⟩ hbuf hsent
  | committing session =>
    obtain ⟨hfed, -, hsent⟩ := hc
    rw [advance]
    exact exec_of_does hm (does_nowSecs (X := X)) fun s _ _ =>
      .become s ⟨_, hsent, hfed.chunks⟩
  | locking session manifest =>
    have hnew : Agent.Carries X D sent (.looking session manifest) := hc
    exact .lock ha hc hnew _
  | looking session manifest => exact .exec (fun s _ => .become s hc) fun s => .leave s _
  | putting session manifest previous =>
    exact .exec (fun s _ => .become s trivial) fun s => .leave s _
  | releasing why chunks =>
    cases chunks with
    | nil =>
      cases why with
      | deleted key manifest => exact .become m.store trivial
      | replaced key => exact .leave m.store _
      | aborted => exact .leave m.store _
    | cons chunk chunks =>
      refine .exec (fun s last => ?_) fun s => ?_
      · cases last with
        | true => exact .become s trivial
        | false => exact .become s trivial
      · cases why with
        | aborted => exact .become s trivial
        | replaced key => exact .leave s _
        | deleted key manifest => exact .leave s _
  | unlinking why chunk chunks =>
    refine .exec (fun s _ => .become s trivial) fun s => ?_
    cases why with
    | deleted key manifest => exact .leave s _
    | replaced key => exact .become s trivial
    | aborted => exact .become s trivial
  | deleting key => exact .lock ha trivial trivial _
  | deleteLooking key =>
    refine .exec (fun s found => ?_) fun s => .leave s _
    cases found with
    | none => exact .leave s _
    | some manifest => exact .become s trivial
  | removing key manifest => exact .exec (fun s _ => .leave s _) fun s => .leave s _
  | renameLocking fromKey toKey => exact .lock ha trivial trivial _
  | renamingLocked fromKey toKey => exact .lock ha trivial trivial _
  | renameLooking fromKey toKey =>
    refine .exec (fun s found => ?_) fun s => .leave s _
    cases found with
    | none => exact .leave s _
    | some manifest => exact .become s trivial
  | renameChecking fromKey toKey manifest =>
    refine .exec (fun s found => ?_) fun s => .leave s _
    obtain ⟨found, now⟩ := found
    cases found with
    | none => exact .become s trivial
    | some _ => exact .leave s _
  | moving fromKey toKey manifest =>
    exact .exec (fun s _ => .become s trivial) fun s => .leave s _
  | removingOld fromKey toKey manifest =>
    exact .exec (fun s _ => .leave s _) fun s => .leave s _

/-! ## The invariant -/

structure Holds (X : Crates) (D : Set Bytes) (m : Machine) (c : Contents) : Prop where
  balanced : m.Balanced
  files : Encoded X D m.store.files
  objects : FinMap.Rels (fun manifest d => Spells X D manifest.chunks d)
    m.store.index.manifests c.objects
  known : ∀ (a : Nat) d, c.uploads[a]? = some d → ∀ p, p <:+: d → p ∈ D
  carries : ∀ (a : Nat) agent, m.agents[a]? = some agent → agent.Carries X D c.uploads[a]?

namespace Holds

variable {c c' : Contents} {m' : Machine} (h : Holds X D m c)
include h

/-- One agent moves. -/
theorem onward (hb : m'.Balanced) (hfiles : Encoded X D m'.store.files)
    (hobjects : FinMap.Rels (fun manifest d => Spells X D manifest.chunks d)
      m'.store.index.manifests c'.objects)
    (hknown : ∀ (b : Nat) d, c'.uploads[b]? = some d → ∀ p, p <:+: d → p ∈ D)
    (hothers : ∀ b : Nat, b ≠ a → c'.uploads[b]? = c.uploads[b]?)
    (hon : Onward a (Agent.Carries X D c'.uploads[a]?) m m') : Holds X D m' c' := by
  refine ⟨hb, hfiles, hobjects, hknown, fun b agent hagent => ?_⟩
  have hb' := hon b agent hagent
  split_ifs at hb' with hba
  · subst hba
    exact hb'
  · rw [hothers b hba]
    exact h.carries b agent hb'

/-- A file put in place has the id of the chunk of an upload. -/
theorem files_after {agent : Agent} (ha : m.agents[a]? = some agent) : Encoded X D ((agent.deed X m.store).files X m.store) := by
  have hc := h.carries a agent ha
  cases agent with
  | creating session chunk next =>
    obtain ⟨-, -, hlen, hsent⟩ := hc
    exact h.files.insert (h.known a _ hsent chunk ⟨_, _, rfl⟩) hlen _
  | unlinking why chunk chunks => exact h.files.erase _
  | checking session chunk next =>
    simp only [Agent.deed]
    split_ifs
    · exact h.files
    · exact h.files
  | releasing why chunks =>
    cases chunks with
    | nil => exact h.files
    | cons chunk chunks => exact h.files
  | _ => exact h.files

/-- The visible manifests are those of the objects. -/
theorem objects_after {agent : Agent} (ha : m.agents[a]? = some agent) :
    FinMap.Rels (fun manifest d => Spells X D manifest.chunks d)
      ((agent.deed X m.store).index m.store.index).manifests (c.advance a agent).objects := by
  have hc := h.carries a agent ha
  cases agent with
  | putting session manifest previous =>
    obtain ⟨d, hsent, hspells⟩ := hc
    simp only [Contents.advance, hsent, Option.elim_some]
    exact h.objects.insert manifest.key hspells
  | moving fromKey toKey manifest =>
    obtain ⟨-, hkey, -, old, hold, hchunks⟩ := h.balanced.knows a _ ha
    obtain ⟨d, hd, hspells⟩ := h.objects.some_left hold
    simp only [Contents.advance, hd, Option.elim_some]
    have hspells : Spells X D manifest.chunks d := hchunks ▸ hspells
    exact hkey ▸ h.objects.insert manifest.key hspells
  | removing key manifest => exact h.objects.erase key
  | removingOld fromKey toKey manifest => exact h.objects.erase fromKey
  | checking session chunk next =>
    simp only [Agent.deed]
    split_ifs
    · exact h.objects
    · exact h.objects
  | releasing why chunks =>
    cases chunks with
    | nil => exact h.objects
    | cons chunk chunks =>
      simp only [Agent.deed, index_dropped, dropRef_manifests]
      exact h.objects
  | _ => exact h.objects

theorem advance {agent : Agent} (ha : m.agents[a]? = some agent) :
    Holds X D (m.advance X a agent) (c.advance a agent) := by
  have huploads : (c.advance a agent).uploads = c.uploads := by cases agent <;> rfl
  have he := advance_effect (X := X) (a := a) h.balanced.attached h.balanced.calm agent
  refine h.onward (a := a) (h.balanced.advance ha) ?_ ?_ ?_ ?_ ?_
  · rw [he.files]
    exact h.files_after ha
  · rw [he.index]
    exact h.objects_after ha
  · rw [huploads]
    exact h.known
  · rw [huploads]
    exact fun _ _ => rfl
  · rw [huploads]
    exact advance_onward h.balanced.attached h.balanced.calm ha (h.carries a agent ha) (h.known a)

/-- An action that no one sees in index and files. -/
theorem quiet (action : Action) (hquiet : m.deed X action = .nothing) (c' : Contents)
    (hobjects : c'.objects = c.objects)
    (hknown : ∀ (b : Nat) d, c'.uploads[b]? = some d → ∀ p, p <:+: d → p ∈ D)
    (hothers : ∀ b : Nat, b ≠ a → c'.uploads[b]? = c.uploads[b]?)
    (hon : Onward a (Agent.Carries X D c'.uploads[a]?) m (m.step X action)) :
    Holds X D (m.step X action) c' := by
  have he := step_effect (X := X) h.balanced.attached h.balanced.calm action
  rw [hquiet] at he
  refine h.onward (h.balanced.step action) ?_ ?_ hknown hothers hon
  · rw [he.files]
    exact h.files
  · rw [he.index, hobjects]
    exact h.objects

/-- One that changes no upload either. -/
theorem quiet_same (action : Action) (hquiet : m.deed X action = .nothing)
    (hon : Onward a (Agent.Carries X D c.uploads[a]?) m (m.step X action)) :
    Holds X D (m.step X action) c :=
  h.quiet action hquiet c rfl h.known (fun _ _ => rfl) hon

/-- What an agent carries that no one moves. -/
theorem stays : Onward a (Agent.Carries X D c.uploads[a]?) m m := .refl (h.carries a)

/-- A new agent that carries nothing. -/
theorem entered {new : Agent} (hnew : new.Carries X D c.uploads[a]?) :
    Onward a (Agent.Carries X D c.uploads[a]?) m (m.enter a (m.become a new)) := by
  unfold Machine.enter
  split_ifs
  · exact h.stays
  · exact .become m.store hnew

theorem begin (key contentType : String) (metadata : List (String × String)) (hnil : [] ∈ D) :
    Holds X D (m.step X (.begin a key contentType metadata))
      (c.call m (.begin a key contentType metadata)) := by
  by_cases ha : m.agents.contains a = true
  · have hstep : m.step X (.begin a key contentType metadata) = m := if_pos ha
    simp only [hstep, Contents.call, if_pos ha]
    exact h
  · have hcontents : c.call m (.begin a key contentType metadata)
        = { c with uploads := c.uploads.insert a [] } := if_neg ha
    rw [hcontents]
    refine h.quiet (a := a) (.begin a key contentType metadata) rfl _ rfl (fun b d hd => ?_) (fun b hb => ?_) ?_
    · simp only [FinMap.get_insert] at hd
      split_ifs at hd
      · cases hd
        intro p hp
        rw [List.infix_nil.1 hp]
        exact hnil
      · exact h.known b d hd
    · simp only [FinMap.get_insert, if_neg (Ne.symm hb)]
    · have hnone : m.agents[a]? = none := by simpa using ha
      have hsame : ∀ P, Onward a P m m := fun P => .refl fun agent hagent => by
        rw [hnone] at hagent
        cases hagent
      simp only [Machine.step, Machine.enter, if_neg ha, FinMap.get_insert, if_true]
      unfold Machine.exec StorageEngine.beginStore
      cases validateKey key with
      | error e => exact hsame _
      | ok u =>
        by_cases hbig : isizeMax < m.engine.chunkSize
        · rw [if_pos hbig]
          exact hsame _
        · rw [if_neg hbig]
          exact .become m.store ⟨⟨Nat.not_lt.1 hbig, Nat.zero_le _, .nil⟩, rfl⟩

theorem write (data : Bytes) (hD : ∀ p, p <:+: c.received (.write a data) → p ∈ D) :
    Holds X D (m.step X (.write a data)) (c.call m (.write a data)) := by
  cases ha : m.agents[a]? with
  | none =>
    simp only [Machine.step, Machine.onIdle, Contents.call, ha]
    exact h
  | some agent =>
    cases agent with
    | idle session =>
      by_cases hbig : session.maxObjectSize ≠ 0 ∧
          session.maxObjectSize < session.bytesWritten + data.length
      · simp only [Machine.step, Machine.onIdle, Contents.call, ha, if_pos hbig]
        exact h
      · obtain ⟨hfed, hsent⟩ := h.carries a _ ha
        have hstep : m.step X (.write a data) = m.become a (.writing session data) := by
          simp only [Machine.step, Machine.onIdle, ha, if_neg hbig]
        have hcall : c.call m (.write a data) = { c with
            uploads := c.uploads.insert a (session.hasher ++ session.buf ++ data) } := by
          simp only [Contents.call, ha, if_neg hbig, hsent, Option.getD_some]
        rw [hcall]
        refine h.quiet (a := a) (.write a data) rfl _ rfl (fun b d hd => ?_) (fun b hb => ?_) ?_
        · simp only [FinMap.get_insert] at hd
          split_ifs at hd
          · cases hd
            rwa [Contents.received, hsent] at hD
          · exact h.known b d hd
        · simp only [FinMap.get_insert, if_neg (Ne.symm hb)]
        · rw [hstep]
          refine .become m.store ⟨hfed, ?_⟩
          simp only [FinMap.get_insert, if_true]
    | _ =>
      simp only [Machine.step, Machine.onIdle, Contents.call, ha]
      exact h

/-- **Every action keeps the invariant.** -/
theorem step (action : Action) (hD : ∀ p, p <:+: c.received action → p ∈ D) :
    Holds X D (m.step X action) (c.call m action) := by
  have hidle : ∀ {a : Nat} {call : StoreSession → Machine},
      (∀ session, m.agents[a]? = some (.idle session) →
        Onward a (Agent.Carries X D c.uploads[a]?) m (call session)) →
      Onward a (Agent.Carries X D c.uploads[a]?) m (m.onIdle a call) := by
    intro a call hcall
    unfold Machine.onIdle
    split
    · exact hcall _ ‹_›
    · exact h.stays
  cases action with
  | begin a key contentType metadata => exact h.begin key contentType metadata (hD [] List.nil_infix)
  | write a data => exact h.write data hD
  | finish a =>
    refine h.quiet_same (.finish a) rfl (hidle fun session ha => ?_)
    obtain ⟨hfed, hsent⟩ := h.carries a _ ha
    exact flush_onward hfed (by rw [hsent, Next.rest, List.append_nil])
  | abort a =>
    exact h.quiet_same (.abort a) rfl (hidle fun session _ => .become m.store trivial)
  | delete a key => exact h.quiet_same (.delete a key) rfl (h.entered trivial)
  | rename a fromKey toKey =>
    refine h.quiet_same (a := a) (.rename a fromKey toKey) rfl ?_
    simp only [Machine.step, Machine.enter]
    split_ifs
    · exact h.stays
    · exact .exec (fun s _ => h.stays) fun s => h.stays
    · exact .exec (fun s _ => .become s trivial) fun s => h.stays
  | advance a =>
    show Holds X D (m.step X (.advance a)) (c.call m (.advance a))
    simp only [Machine.step, Contents.call]
    cases ha : m.agents[a]? with
    | none => exact h
    | some agent => exact h.advance ha
  | tick now => exact h.quiet_same (a := 0) (.tick now) rfl h.stays

end Holds

/-- A pass removes files only. -/
theorem Holds.collect {m : GcMachine} {c : Contents}
    (h : Holds X D m.base c) (pass : Pass) : Holds X D (m.collect pass).base c := by
  obtain ⟨s, hbase, hs, hcalm, hidx, hfiles⟩ :=
    GcMachine.collect_base h.balanced.attached h.balanced.calm pass
  rw [hbase]
  refine ⟨GcMachine.Balanced.withFiles h.balanced hs hcalm hidx, h.files.mono hfiles, ?_, h.known,
    h.carries⟩
  show FinMap.Rels _ s.index.manifests c.objects
  rw [hidx]
  exact h.objects

theorem Holds.traffic {t : Traffic} {c : Contents} (h : Holds X D t.base c)
    (action : TrafficAction) (hD : ∀ p, p <:+: c.receivedWith action → p ∈ D) :
    Holds X D (t.step X action).base (c.step t action) := by
  cases action with
  | call action => exact h.step action hD
  | gc p grace =>
    simp only [Traffic.step]
    split_ifs
    · exact h
    · exact h
  | collect p =>
    simp only [Traffic.step]
    cases t.passes[p]? with
    | none => exact h
    | some pass => exact Holds.collect (m := ⟨t.base, some pass⟩) h pass

theorem Holds.run : ∀ (actions : List TrafficAction) {t : Traffic} {c : Contents},
    Holds X D t.base c → pieces (c.receivedIn X t actions) ⊆ D →
    Holds X D (t.run X actions).base (c.run X t actions)
  | [], _, _, h, _ => h
  | action :: actions, _, _, h, hD =>
    Holds.run actions (h.traffic action fun _ hp => hD ⟨_, List.mem_cons_self, hp⟩)
      ((pieces_mono (List.subset_cons_self _ _)).trans hD)

theorem Holds.start (engine : StorageEngine) (dataDir : String) :
    Holds X D (Machine.start engine dataDir) .empty where
  balanced := .start engine dataDir
  files := fun hex f hf => by simp [Machine.start, Store.emptyDir] at hf
  objects := FinMap.Rels.empty
  known := fun a d hd => by simp [Contents.empty] at hd
  carries := fun a agent ha => by simp [Machine.start] at ha

end Machine

/-! ## The reader -/

/-- What a reader has is what it has still to read away from the object it looked up. -/
def Reader.Follows (X : Crates) (D : Set Bytes) (visible : Option Bytes) : Reader → Prop
  | seeking _ chunks buf => ∃ d, visible = some (buf ++ d) ∧ Spells X D chunks d
  | opening _ chunk chunks buf => ∃ d, visible = some (buf ++ d) ∧ Spells X D (chunk :: chunks) d
  | done result => ∀ d, result = .ok d → visible = some d

namespace Reader

variable {visible : Option Bytes} {reader : Reader}

theorem follows_lookup {m : Machine} {c : Contents}
    (h : m.Holds X D c) (key : String) :
    (Reader.lookup key m.store).Follows X D c.objects[key]? := by
  unfold Reader.lookup
  cases hm : m.store.index.manifests[key]? with
  | none => exact nofun
  | some manifest =>
    obtain ⟨d, hd, hspells⟩ := h.objects.some_left hm
    exact ⟨d, hd, hspells⟩

theorem verify_ok {engine : StorageEngine} {key : String} {manifest : MediaManifest}
    {buf d : Bytes} (h : engine.verify X key manifest buf = .ok d) : d = buf := by
  unfold StorageEngine.verify at h
  dsimp only at h
  split_ifs at h <;> cases h
  · rfl
  · rfl

/-- **The next chunk of the reader is the next of its object**, whoever has put the file there. -/
theorem Follows.advance (h : reader.Follows X D visible) (hinj : Set.InjOn X.sha256 D) {s : Store}
    (hfiles : Encoded X D s.files) (engine : StorageEngine) (key : String) :
    (reader.advance X engine key s).Follows X D visible := by
  cases reader with
  | seeking manifest chunks buf =>
    obtain ⟨d, hd, hspells⟩ := h
    cases chunks with
    | nil =>
      cases hspells
      intro data hdata
      rw [hd, verify_ok hdata, List.append_nil]
    | cons chunk chunks =>
      simp only [Reader.advance]
      split_ifs
      · exact ⟨d, hd, hspells⟩
      · exact nofun
  | opening manifest chunk chunks buf =>
    obtain ⟨d, hd, hspells⟩ := h
    simp only [Reader.advance]
    cases hopen : BlobStore.openChunk X s chunk with
    | error e => exact nofun
    | ok data =>
      obtain ⟨hdata, hid⟩ := hfiles.opened hopen
      cases hspells with
      | @cons p _ tail hp hspells =>
        -- contents of the same id are the same
        have heq : p = data := hinj hp hdata (congrArg ChunkId.bytes hid)
        subst heq
        exact ⟨tail, by rw [hd, List.append_assoc], hspells⟩
  | done result => exact h

/-- The number of steps after which it is done at the latest. -/
def todo : Reader → Nat
  | seeking _ chunks _ => 2 * chunks.length + 1
  | opening _ _ chunks _ => 2 * chunks.length + 2
  | done _ => 0

theorem todo_advance (reader : Reader) (engine : StorageEngine) (key : String) (s : Store) :
    (reader.advance X engine key s).todo ≤ reader.todo - 1 := by
  cases reader with
  | seeking manifest chunks buf =>
    cases chunks with
    | nil => exact Nat.zero_le _
    | cons chunk chunks =>
      simp only [Reader.advance]
      split_ifs <;> simp only [todo, List.length_cons] <;> omega
  | opening manifest chunk chunks buf =>
    simp only [Reader.advance]
    cases BlobStore.openChunk X s chunk <;> simp only [todo] <;> omega
  | done result => exact Nat.zero_le _

theorem done_of_todo (h : reader.todo = 0) : ∃ result, reader = .done result := by
  cases reader with
  | done result => exact ⟨result, rfl⟩
  | _ => cases h

/-! ### A reader by itself -/

section
variable (engine : StorageEngine) (key : String) (s : Store)

theorem iterate_done (result : Except Fail Bytes) (n : Nat) :
    (Reader.advance X engine key s)^[n] (.done result) = .done result :=
  Function.iterate_fixed rfl n

theorem readChunk_eq (id : ChunkId) : BlobStore.readChunk X id s = result
    (if s.files.contains id.toHex then BlobStore.openChunk X s id
      else .error (.error (.notFound s!"chunk not found: {id.toHex}"))) s := by
  rw [BlobStore.readChunk, run_bind, run_get, BlobStore.openChunk]
  simp only [FinMap.contains_iff]
  cases s.files[id.toHex]? with
  | none => rfl
  | some f =>
    simp only [Option.isSome_some, if_true]
    cases decodeChunk X f.bytes with
    | ok data => rfl
    | error e => rfl

/-- The chunks that are left, and the checksum. -/
theorem seeking_alone (manifest : MediaManifest) (chunks : List ChunkId) :
    ∃ q, StorageEngine.readChunks X chunks s = result q s ∧
      ∀ (buf : Bytes) (n : Nat), 2 * chunks.length + 1 ≤ n →
        (Reader.advance X engine key s)^[n] (.seeking manifest chunks buf)
          = .done (q.bind fun d => engine.verify X key manifest (buf ++ d)) := by
  induction chunks with
  | nil =>
    refine ⟨.ok [], rfl, fun buf n hn => ?_⟩
    obtain ⟨k, rfl⟩ : ∃ k, n = k + 1 := ⟨n - 1, by simp at hn; omega⟩
    rw [Function.iterate_succ_apply, Reader.advance, iterate_done]
    simp [Except.bind]
  | cons id chunks ih =>
    obtain ⟨q, hq, ih⟩ := ih
    have hrun : StorageEngine.readChunks X (id :: chunks) s
        = (BlobStore.readChunk X id >>= fun data => StorageEngine.readChunks X chunks >>=
            fun more => pure (data ++ more) : M Bytes) s := rfl
    rw [hrun, run_bind, readChunk_eq]
    -- its first two steps are those on the first chunk
    have htwo : ∀ (buf : Bytes) (n : Nat), 2 * (id :: chunks).length + 1 ≤ n → ∃ k,
        2 * chunks.length + 1 ≤ k ∧
        (Reader.advance X engine key s)^[n] (.seeking manifest (id :: chunks) buf)
          = (Reader.advance X engine key s)^[k] (Reader.advance X engine key s
              (Reader.advance X engine key s (.seeking manifest (id :: chunks) buf))) := by
      intro buf n hn
      rw [List.length_cons] at hn
      obtain ⟨k, rfl⟩ : ∃ k, n = k + 1 + 1 := ⟨n - 2, by omega⟩
      exact ⟨k, by omega, by rw [Function.iterate_succ_apply, Function.iterate_succ_apply]⟩
    by_cases hf : s.files.contains id.toHex = true
    · rw [if_pos hf]
      cases hopen : BlobStore.openChunk X s id with
      | error e =>
        refine ⟨.error e, rfl, fun buf n hn => ?_⟩
        obtain ⟨k, -, hk⟩ := htwo buf n hn
        rw [hk, Reader.advance, if_pos hf, Reader.advance, hopen, iterate_done]
        rfl
      | ok data =>
        refine ⟨q.map (data ++ ·), ?_, fun buf n hn => ?_⟩
        · rw [result_ok]
          show (StorageEngine.readChunks X chunks >>= fun more => pure (data ++ more) : M Bytes) s = _
          rw [run_bind, hq]
          cases q <;> rfl
        · obtain ⟨k, hle, hk⟩ := htwo buf n hn
          rw [hk, Reader.advance, if_pos hf, Reader.advance, hopen, ih _ k hle]
          cases q with
          | error e => rfl
          | ok d => simp [Except.bind, Except.map]
    · rw [if_neg hf]
      refine ⟨.error (.error (.notFound s!"chunk not found: {id.toHex}")), rfl, fun buf n hn => ?_⟩
      obtain ⟨k, -, hk⟩ := htwo buf n hn
      rw [hk, Reader.advance, if_neg hf, Reader.advance, iterate_done]
      rfl

end

/-- **A reader that nothing comes between** reads what `read` does. -/
theorem alone (engine : StorageEngine) (key : String) (s : Store) :
    ∃ r, engine.read X key s = result r s ∧ ∀ n, (Reader.lookup key s).todo ≤ n →
      (Reader.advance X engine key s)^[n] (.lookup key s) = .done r := by
  unfold Reader.lookup
  rw [StorageEngine.read, Index.getManifest]
  simp only [run_bind, run_get, run_pure]
  cases s.index.manifests[key]? with
  | none => exact ⟨_, rfl, fun n _ => iterate_done engine key s _ n⟩
  | some manifest =>
    obtain ⟨q, hq, hsteps⟩ := seeking_alone (X := X) engine key s manifest manifest.chunks
    refine ⟨q.bind (engine.verify X key manifest), ?_, fun n hn => hsteps [] n hn⟩
    simp only [run_bind, hq]
    cases q with
    | error e => rfl
    | ok d =>
      simp only [result_ok, Except.bind, StorageEngine.verify]
      split_ifs <;> rfl

end Reader

/-! ## Runs -/

namespace Reading

variable {visible : Option Bytes}

theorem run_follows (hinj : Set.InjOn X.sha256 D) : ∀ (actions : List ReadAction) {r : Reading}
    {c : Contents}, r.base.base.Holds X D c → r.reader.Follows X D visible →
    pieces (c.receivedIn X r.base (actions.filterMap ReadAction.traffic?)) ⊆ D →
    (r.run X actions).reader.Follows X D visible
  | [], _, _, _, hr, _ => hr
  | .other action :: actions, _, _, h, hr, hD =>
    run_follows hinj actions (h.traffic action fun _ hp => hD ⟨_, List.mem_cons_self, hp⟩) hr
      ((pieces_mono (List.subset_cons_self _ _)).trans hD)
  | .advance :: actions, r, _, h, hr, hD =>
    run_follows hinj actions (r := r.step X .advance) h
      (hr.advance hinj h.files r.base.base.engine r.key) hD

theorem run_todo : ∀ (actions : List ReadAction) (r : Reading),
    (r.run X actions).reader.todo ≤ r.reader.todo - actions.count .advance
  | [], _ => by simp [run]
  | .other action :: actions, r => by
    rw [List.count_cons_of_ne (by simp)]
    exact run_todo actions (r.step X (.other action))
  | .advance :: actions, r => by
    have hstep := run_todo actions (r.step X .advance)
    have hone := r.reader.todo_advance (X := X) r.base.base.engine r.key r.base.base.store
    have htodo : (r.step X .advance).reader.todo ≤ r.reader.todo - 1 := hone
    rw [List.count_cons_self]
    exact hstep.trans (by omega)

end Reading

theorem Contents.receivedIn_append : ∀ (actions more : List TrafficAction) (t : Traffic) (c : Contents),
    c.receivedIn X t (actions ++ more)
      = c.receivedIn X t actions ++ (c.run X t actions).receivedIn X (t.run X actions) more
  | [], _, _, _ => rfl
  | action :: actions, more, t, c => congrArg (c.receivedWith action :: ·)
    (receivedIn_append actions more (t.step X action) (c.step t action))

/-- **A reader never sees a mixture of versions.** Whatever ran before a read looked up its
manifest, and whatever comes between its steps: if it returns, then an error, or the bytes of the
object that was visible under its key when it looked, and it returns after at most two steps for
each chunk and one for the checksum. -/
theorem read_unmixed (X : Crates) (engine : StorageEngine) (dataDir : String) (key : String)
    (before : List TrafficAction) (after : List ReadAction)
    (hfree : Set.InjOn X.sha256 (pieces (Contents.empty.receivedIn X (Traffic.start engine dataDir)
      (before ++ after.filterMap ReadAction.traffic?)))) :
    let start := Traffic.start engine dataDir
    let t := start.run X before
    let visible := (Contents.empty.run X start before).objects[key]?
    let r := (Reading.call t key).run X after
    (∀ result, r.reader = .done result →
      (∃ e, result = .error e) ∨ ∃ d, visible = some d ∧ result = .ok d) ∧
    (2 * ((t.base.store.index.manifests[key]?).elim 0 fun manifest => manifest.chunks.length)
      < after.count .advance → ∃ result, r.reader = .done result) := by
  intro start t visible r
  constructor
  · intro result hdone
    rw [Contents.receivedIn_append] at hfree
    have h := Machine.Holds.run (X := X) before (t := start) (.start engine dataDir) (pieces_mono
      (List.subset_append_left _ ((Contents.empty.run X start before).receivedIn X t
        (after.filterMap ReadAction.traffic?))))
    have hr : r.reader.Follows X _ visible :=
      Reading.run_follows hfree after (r := Reading.call t key) h
        (Reader.follows_lookup h key) (pieces_mono (List.subset_append_right _ _))
    rw [hdone] at hr
    cases result with
    | error e => exact .inl ⟨e, rfl⟩
    | ok d => exact .inr ⟨d, hr d rfl, rfl⟩
  · intro hcount
    have htodo : (Reading.call t key).reader.todo ≤ 2 * ((t.base.store.index.manifests[key]?).elim 0
        fun manifest => manifest.chunks.length) + 1 := by
      unfold Reading.call Reader.lookup
      cases t.base.store.index.manifests[key]? with
      | none => exact Nat.zero_le _
      | some manifest => exact le_rfl
    have hrun : r.reader.todo ≤ (Reading.call t key).reader.todo - after.count .advance :=
      Reading.run_todo (X := X) after (Reading.call t key)
    exact Reader.done_of_todo (by omega)

/-- An object of two chunks. -/
def twoChunks : List TrafficAction :=
  List.map .call
    ([.begin 0 "a" "" [], .write 0 [1, 2]] ++ advances 0 9 ++ [.finish 0] ++ advances 0 5)

/-- After the first chunk of it was read it is deleted, and another upload puts the file of the
second chunk back. -/
def recreated : List ReadAction :=
  List.replicate 2 .advance ++
    List.map (fun action => .other (.call action))
      ([.delete 1 "a"] ++ advances 1 8 ++ [.begin 2 "b" "" [], .write 2 [2]] ++ advances 2 5
        ++ [.finish 2] ++ advances 2 5) ++
    List.replicate 3 .advance

theorem read_unmixed_recreated :
    let start := Traffic.start ⟨1, 0, true⟩ "data"
    let r := (Reading.call (start.run .reference twoChunks) "a").run .reference recreated
    (∀ result, r.reader = .done result → (∃ e, result = .error e) ∨ ∃ d,
      (Contents.empty.run .reference start twoChunks).objects["a"]? = some d ∧ result = .ok d) ∧
    r.base.base.store.index.manifests.keys = ["b"] ∧ r.reader = .done (.ok [1, 2]) := by
  intro start r
  have hfree : Set.InjOn Crates.reference.sha256 (pieces (Contents.empty.receivedIn .reference start
      (twoChunks ++ recreated.filterMap ReadAction.traffic?))) := reference_free (by decide +kernel)
  exact ⟨(read_unmixed .reference ⟨1, 0, true⟩ "data" "a" twoChunks recreated hfree).1,
    by decide +kernel, by decide +kernel⟩

end KaidaDB
