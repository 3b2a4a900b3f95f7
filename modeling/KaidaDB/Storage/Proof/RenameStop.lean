import KaidaDB.Storage.Proof.DeleteRetry
import KaidaDB.Storage.Proof.Recovery

/-!
# A rename that stops midway

A rename is two entries of the log: the manifest under the new key, then the removal of the old one.
Between them the object is visible under both keys with the references of one. An append that returns
an error may have left its entry in the log all the same, or enough of it that replay takes it in or
gives up; then the object is where it was only until the engine is opened again.
`rename_whole_iff`: a rename that stops anywhere else is all or nothing.
-/

namespace KaidaDB

open Std Effects Index

variable {X : Crates} {D : Set Bytes} {logged : Bool} {c : View} {w after : World}
  {fromKey toKey : String} {m : MediaManifest}

/-- Two manifests differ in nothing but the key and the time of the last update. -/
def SameObject (m m' : MediaManifest) : Prop :=
  m' = { m with key := m'.key, updatedAt := m'.updatedAt }

/-- From `w` to `after` the object `m` under `fromKey` has been moved to `toKey` or stayed where it
was, and nothing else has happened. -/
structure RenamedWhole (X : Crates) (w after : World) (fromKey toKey : String)
    (m : MediaManifest) : Prop where
  one : ∃ m', SameObject m m' ∧
    (after.store.index.manifests[fromKey]? = some m' ∧ after.store.index.manifests[toKey]? = none ∨
      after.store.index.manifests[fromKey]? = none ∧ after.store.index.manifests[toKey]? = some m')
  others : ∀ other, other ≠ fromKey → other ≠ toKey →
    after.store.index.manifests[other]? = w.store.index.manifests[other]?
  counts : ∀ id, after.store.index.refCount id = w.store.index.refCount id
  deletable : ∀ key, key = fromKey ∨ key = toKey → ∀ (other : String) (engine : StorageEngine),
    other ≠ key → returned (engine.read X other (after.step X (.delete key)).1.store)
      = returned (engine.read X other after.store)

/-- And so it is when the engine is opened again. -/
structure RenamedForGood (X : Crates) (w after : World) (fromKey toKey : String)
    (m : MediaManifest) : Prop where
  now : RenamedWhole X w after fromKey toKey m
  opens : ∀ engine durability, (after.step X (.reopen engine durability)).2 = .done
  reopened : ∀ engine durability,
    RenamedWhole X w (after.step X (.reopen engine durability)).1 fromKey toKey m

/-- What an append that fails leaves of its line in the log. -/
def AppendFault.leaves (line : Bytes) : AppendFault → Bytes
  | .write n => line.take n
  | .sync => line

/-- The rest of an entry's line ends between two characters, and before the end of the entry's text. -/
def CutOff (X : Crates) (e : LogEntry) (rest : Bytes) : Prop :=
  (Utf8.decode rest).isSome ∧ rest.length < (Utf8.encode (X.jsonToString e)).length

/-- The stop does not come between the two entries; and if it is the append of the first one, of
`newManifest`, that fails, then what it leaves in the log is `CutOff`. -/
def RenameSafe (X : Crates) (durability : Durability) (stop : Stop) (newManifest : MediaManifest) :
    Prop :=
  made durability stop.io renameSteps ≠ [.manifest] ∧
    ∀ fault, stop = .ioError 0 fault → made durability stop.io renameSteps = [] →
      CutOff X (.putManifest newManifest) (fault.leaves (entryLine X (.putManifest newManifest)))

/-- The manifest under the new key. -/
def renamed (c : View) (m : MediaManifest) (toKey : String) : MediaManifest :=
  { m with key := toKey, updatedAt := c.nowSecs }

/-! ## What is left of an entry -/

theorem AppendFault.leaves_prefix (line : Bytes) (fault : AppendFault) : fault.leaves line <+: line := by
  cases fault with
  | write n => exact List.take_prefix n line
  | sync => exact List.prefix_rfl

/-- Replay ends before a rest that is cut off. -/
theorem openLog_cutOff (hX : X.Lawful) {e : LogEntry} {rest : Bytes} (hp : rest <+: entryLine X e)
    (hcut : CutOff X e rest) (es : List LogEntry) :
    ∃ entries log, openLog X (logBytes X es ++ rest) = .ok (replayLog es, entries, log) := by
  obtain ⟨htext, hlen⟩ := hcut
  obtain ⟨l, hl⟩ := Option.isSome_iff_exists.1 htext
  have hne : rest ≠ Utf8.encode (X.jsonToString e) := fun h => by
    rw [h] at hlen
    exact Nat.lt_irrefl _ hlen
  have hne' : rest ≠ entryLine X e := fun h => by
    rw [h, entryLine, Lines.record, List.length_append] at hlen
    omega
  have hopen := openLog_tail hX hp hne' hl es
  rw [recoverable, if_neg hne] at hopen
  exact ⟨_, _, hopen⟩

/-- Of any other rest replay takes in the entry, if it does not give up. -/
theorem openLog_not_cutOff (hX : X.Lawful) {e : LogEntry} {rest : Bytes} (hp : rest <+: entryLine X e)
    (hcut : ¬ CutOff X e rest) {es : List LogEntry} {st : IndexState} {entries : Nat} {log : Bytes}
    (hopen : openLog X (logBytes X es ++ rest) = .ok (st, entries, log)) :
    st = replayLog (es ++ [e]) := by
  by_cases hline : rest = entryLine X e
  · rw [hline, ← logBytes_singleton, ← logBytes_append, openLog_logBytes hX] at hopen
    cases hopen
    rfl
  · cases htext : Utf8.decode rest with
    | none =>
      have hne : rest ≠ [] := by
        rintro rfl
        simp [Utf8.decode] at htext
      rw [openLog_invalid hX (nl_not_mem_start hX hp hline) hne htext] at hopen
      cases hopen
    | some l =>
      have hall : rest = Utf8.encode (X.jsonToString e) := by
        obtain ⟨r, hr⟩ := prefix_text hX hp hline htext
        have hlen : ¬ rest.length < (Utf8.encode (X.jsonToString e)).length := fun h =>
          hcut ⟨by rw [htext]; rfl, h⟩
        obtain rfl := Utf8.decode_eq_some.1 htext
        rw [← hr, Utf8.encode_append] at hlen ⊢
        have hr0 : Utf8.encode r = [] := by
          rw [List.length_append] at hlen
          exact List.eq_nil_of_length_eq_zero (by omega)
        rw [hr0, List.append_nil]
      rw [openLog_tail hX hp hline htext, recoverable, if_pos hall] at hopen
      cases hopen
      rfl

/-- Opening the engine again. -/
theorem step_reopen_of_openLog {st : IndexState} {entries : Nat} {log : Bytes}
    (h : openLog X after.store.log = .ok (st, entries, log)) (engine : StorageEngine)
    (durability : Durability) : after.step X (.reopen engine durability) = (⟨engine, { after.store with
      durability := durability, index := st, logEntries := entries, log := log, attached := true },
        ∅⟩, .done) := by
  rw [World.step, openWith_eq h]

/-! ## The entries that are made -/

/-- A rename that passes its checks. -/
structure Renames (s : IndexState) (fromKey toKey : String) (m : MediaManifest) : Prop where
  valid : validateKey toKey = .ok ()
  ne : fromKey ≠ toKey
  source : s.manifests[fromKey]? = some m
  target : s.manifests[toKey]? = none

theorem Renames.run {s : Store} (h : Renames s.index fromKey toKey m) :
    StorageEngine.rename X fromKey toKey s = (do
      Index.putManifest X (renamed s.view m toKey)
      Index.deleteManifest X fromKey
      return renamed s.view m toKey : M MediaManifest) s := by
  rw [StorageEngine.rename, h.valid, check, if_neg h.ne]
  simp only [run_bind, run_pure, Index.getManifest, run_get, h.source, h.target]
  rfl

/-- The index with the new manifest, and with both entries. -/
def copiedIndex (c : View) (m : MediaManifest) (toKey : String) : IndexState :=
  applyEntry c.index (.putManifest (renamed c m toKey))

def movedIndex (c : View) (m : MediaManifest) (fromKey toKey : String) : IndexState :=
  applyEntry (copiedIndex c m toKey) (.deleteManifest fromKey)

theorem made_renameSteps (d : Durability) (io : Stream' IoPlan) : made d io renameSteps =
    if DiskStep.manifest.fails d io.head then []
    else if DiskStep.manifest.fails d io.tail.head then [.manifest]
    else renameSteps := by
  show (if _ then [] else DiskStep.manifest :: if _ then [] else [.manifest]) = _
  split_ifs <;> rfl

theorem made_renameSteps_cases (d : Durability) (io : Stream' IoPlan) : made d io renameSteps = [] ∨
    made d io renameSteps = [.manifest] ∨ made d io renameSteps = renameSteps := by
  rw [made_renameSteps]
  split_ifs
  · exact .inl rfl
  · exact .inr (.inl rfl)
  · exact .inr (.inr rfl)

section
variable (h : Renames c.index fromKey toKey m)
include h

theorem Renames.does {r : Except Fail MediaManifest} {c' : View} (hx : Does (lens X logged) (do
      Index.putManifest X (renamed c m toKey)
      Index.deleteManifest X fromKey
      return renamed c m toKey) c r c') :
    Does (lens X logged) (StorageEngine.rename X fromKey toKey) c r c' := by
  rintro s hs rfl
  have hs' : Renames s.index fromKey toKey m := h
  rw [hs'.run]
  exact hx s hs rfl

/-- The first append fails, and leaves nothing. -/
theorem does_rename_none (hio : Clean logged c.io) (hmade : c.made renameSteps = []) :
    Does (lens X logged) (StorageEngine.rename X fromKey toKey) c (.error ioError)
      { c with io := c.io.tail } := by
  refine h.does (Does.bind_error (does_putManifest_error (fails_of_manifest hio ?_)))
  by_contra hf
  rw [View.made, made_renameSteps, if_neg hf] at hmade
  split_ifs at hmade
  all_goals cases hmade

/-- The second one fails. -/
theorem does_rename_one (hio : Clean logged c.io) (hmade : c.made renameSteps = [.manifest]) :
    ∃ c', Does (lens X logged) (StorageEngine.rename X fromKey toKey) c (.error ioError) c' ∧
      c'.index = copiedIndex c m toKey := by
  rw [View.made, made_renameSteps] at hmade
  split_ifs at hmade with h1 h2
  · exact ⟨_, h.does (Does.bind (does_putManifest (appends_of_manifest (Bool.not_eq_true _ ▸ h1))
      (hio 1).1) (Does.bind_error (does_deleteManifest_error (fails_of_manifest
        (c := c.applied (.putManifest (renamed c m toKey))) hio.tail h2)))), rfl⟩
  · cases hmade

/-- Both are made, and their lines are complete. -/
theorem does_rename_two (hio : Clean false c.io) (hmade : c.made renameSteps = renameSteps) :
    Does (lens X logged) (StorageEngine.rename X fromKey toKey) c (.ok (renamed c m toKey))
      ((c.applied (.putManifest (renamed c m toKey))).applied (.deleteManifest fromKey)) := by
  rw [View.made, made_renameSteps] at hmade
  split_ifs at hmade with h1 h2
  · cases hmade
  · cases hmade
  · exact h.does (Does.bind (does_putManifest (appends_of_manifest (Bool.not_eq_true _ ▸ h1))
      (hio 1).1) (Does.bind (does_deleteManifest (appends_of_manifest
        (c := c.applied (.putManifest (renamed c m toKey))) (Bool.not_eq_true _ ▸ h2)) (hio 2).1)
        (Does.pure _)))

end

/-! ## The worlds they leave -/

section
variable {s : Spec} (h : Sim X D w s) (hr : Renames w.store.index fromKey toKey m)
  (hh : (lens X false).healthy after.store) (hcalm : after.store.view.Calm)
include h hr hh hcalm

/-- Nothing has happened. -/
theorem Renames.stayed (hidx : after.store.index = w.store.index) :
    RenamedWhole X w after fromKey toKey m := by
  have hle : ∀ id, after.store.index.occurrences id ≤ after.store.index.refCount id := by
    rw [hidx]
    exact h.occurrences_le
  refine ⟨⟨m, rfl, .inl ?_⟩, fun _ _ _ => by rw [hidx], fun _ => by rw [hidx],
    fun key _ other engine hne => (delete_harmsNoOther hh hcalm hle key).readable other engine hne⟩
  rw [hidx]
  exact ⟨hr.source, hr.target⟩

/-- The object has moved. -/
theorem Renames.moved {c : View} (hc : c.index = w.store.index)
    (hidx : after.store.index = movedIndex c m fromKey toKey) :
    RenamedWhole X w after fromKey toKey m := by
  let m' : MediaManifest := renamed c m toKey
  have hidx' : after.store.index
      = applyEntry (applyEntry w.store.index (.putManifest m')) (.deleteManifest fromKey) := by
    rw [hidx, ← hc]
    rfl
  have hget : ∀ k : String, after.store.index.manifests[k]? = if fromKey = k then none
      else if toKey = k then some m' else w.store.index.manifests[k]? := by
    intro k
    rw [hidx']
    simp only [applyEntry, FinMap.get_erase, FinMap.get_insert]
    rfl
  have hrefs : ∀ id, after.store.index.refCount id = w.store.index.refCount id := fun id => by
    rw [hidx']
    rfl
  have hle : ∀ id, after.store.index.occurrences id ≤ after.store.index.refCount id := by
    intro id
    have hput := occurrences_put w.store.index m' id
    have hdel := occurrences_delete (applyEntry w.store.index (.putManifest m')) fromKey id
    have hold : (applyEntry w.store.index (.putManifest m')).manifests[fromKey]? = some m := by
      show (w.store.index.manifests.insert toKey m')[fromKey]? = some m
      rw [FinMap.get_insert, if_neg (Ne.symm hr.ne), hr.source]
    rw [hold, ← hidx'] at hdel
    rw [show w.store.index.manifests[m'.key]? = none from hr.target] at hput
    have := h.occurrences_le id
    simp only [Option.elim_none, Option.elim_some] at hput hdel
    have hcount : m'.chunks.count id = m.chunks.count id := rfl
    have := hrefs id
    omega
  refine ⟨⟨m', rfl, .inr ?_⟩, fun other h1 h2 => ?_, hrefs,
    fun key _ other engine hne => (delete_harmsNoOther hh hcalm hle key).readable other engine hne⟩
  · rw [hget, hget, if_pos rfl, if_neg hr.ne, if_pos rfl]
    exact ⟨rfl, rfl⟩
  · rw [hget, if_neg (Ne.symm h1), if_neg (Ne.symm h2)]

end

/-- With both manifests the object is visible twice. -/
theorem Renames.not_copied {c : View} (hr : Renames w.store.index fromKey toKey m)
    (hc : c.index = w.store.index) (hidx : after.store.index = copiedIndex c m toKey) :
    ¬ RenamedWhole X w after fromKey toKey m := by
  intro hwhole
  have hman : after.store.index.manifests
      = w.store.index.manifests.insert toKey (renamed c m toKey) := by
    rw [hidx, copiedIndex, hc]
    rfl
  obtain ⟨m', -, ⟨-, h⟩ | ⟨h, -⟩⟩ := hwhole.one
  · rw [hman, FinMap.get_insert, if_pos rfl] at h
    cases h
  · rw [hman, FinMap.get_insert, if_neg (Ne.symm hr.ne), hr.source] at h
    cases h

/-- A log that rebuilds the index does so when the engine is opened again. -/
theorem RenamedWhole.forGood (hX : X.Lawful) (hh : (lens X true).healthy after.store)
    (hwhole : ∀ {v : World}, (lens X false).healthy v.store → v.store.view.Calm →
      v.store.index = after.store.index → RenamedWhole X w v fromKey toKey m)
    (hcalm : after.store.view.Calm) : RenamedForGood X w after fromKey toKey m := by
  refine ⟨hwhole ⟨hh.1, fun h => by cases h⟩ hcalm rfl, fun engine durability => ?_,
    fun engine durability => ?_⟩
  · obtain ⟨entries, hopen⟩ := (hh.2 rfl).openWith hX durability
    rw [World.step, hopen]
  · obtain ⟨entries, hopen⟩ := (hh.2 rfl).openWith hX durability
    rw [World.step, hopen]
    exact hwhole ⟨rfl, fun h => by cases h⟩ hcalm rfl

/-! ## An append that returns an error -/

theorem made_nil {durability : Durability} {n : Nat} {fault : AppendFault}
    (h : made durability (Stop.ioError n fault).io renameSteps = []) :
    n = 0 ∧ (fault = .sync → durability = .sync) := by
  have hf : DiskStep.manifest.fails durability (Stop.ioError n fault).io.head = true := by
    by_contra hf
    rw [made_renameSteps, if_neg hf] at h
    split_ifs at h
    all_goals cases h
  have hhead : (Stop.ioError n fault).io.head
      = if 0 = n then ⟨some fault, true, true, none⟩ else .ok := rfl
  rw [hhead] at hf
  by_cases hn : 0 = n
  · rw [if_pos hn] at hf
    refine ⟨hn.symm, fun hs => ?_⟩
    subst hs
    exact (of_decide_eq_true hf).2 rfl
  · rw [if_neg hn] at hf
    exact absurd hf (by simp [DiskStep.fails, IoPlan.ok])

/-- The world with a rest of the new manifest's line in its log. -/
theorem interrupted_first (hw : (lens X true).healthy w.store)
    (hr : Renames w.store.index fromKey toKey m) {fault : AppendFault}
    (hf : fault = .sync → w.store.durability = .sync) {line : Bytes}
    (hline : line = entryLine X (.putManifest (renamed w.store.view m toKey))) :
    w.interrupted X (.ioError 0 fault) (.rename fromKey toKey) = { w with store := { w.store with
      io := Stream'.const .ok, log := w.store.log ++ fault.leaves line } } := by
  subst hline
  let st : Store := { w.store with io := (Stop.ioError 0 fault).io }
  let line : Bytes := entryLine X (.putManifest (renamed w.store.view m toKey))
  have happ : Index.appendEntry X (.putManifest (renamed w.store.view m toKey)) true st
      = .error ioError { st with io := st.io.tail, log := st.log ++ fault.leaves line } := by
    cases fault with
    | write n => exact appendEntry_write (s := st) hw.1 rfl
    | sync => exact appendEntry_sync (s := st) hw.1 rfl (hf rfl)
  have hrun : StorageEngine.rename X fromKey toKey st = .error ioError { st with
      io := st.io.tail, log := st.log ++ fault.leaves line } := by
    rw [Renames.run (s := st) hr, Index.putManifest]
    simp only [run_bind, show renamed st.view m toKey = renamed w.store.view m toKey from rfl, happ]
  rw [World.interrupted]
  dsimp only [World.step, World.onEngine]
  rw [hrun]

/-- After the first append has failed the object is where it was, for good exactly if what is left of the
line is cut off. -/
theorem interrupted_first_iff (hX : X.Lawful) {s : Spec} (h : Sim X D w s)
    (hr : Renames w.store.index fromKey toKey m) {fault : AppendFault}
    (hf : fault = .sync → w.store.durability = .sync) :
    RenamedForGood X w (w.interrupted X (.ioError 0 fault) (.rename fromKey toKey)) fromKey toKey m ↔
      CutOff X (.putManifest (renamed w.store.view m toKey))
        (fault.leaves (entryLine X (.putManifest (renamed w.store.view m toKey)))) := by
  obtain ⟨es, hlog, hes⟩ := h.healthy.2 rfl
  have hline := fault.leaves_prefix (entryLine X (.putManifest (renamed w.store.view m toKey)))
  rw [interrupted_first h.healthy hr hf rfl, hlog]
  constructor
  · intro hgood
    by_contra hcut
    have hopens := hgood.opens w.engine .none
    have hreopened := hgood.reopened w.engine .none
    cases hopen : openLog X (logBytes X es
        ++ fault.leaves (entryLine X (.putManifest (renamed w.store.view m toKey)))) with
    | error e =>
      rw [World.step, Index.openWith, hopen] at hopens
      cases hopens
    | ok p =>
      obtain ⟨st, entries, log⟩ := p
      have hst := openLog_not_cutOff hX hline hcut hopen
      rw [replayLog_snoc, hes] at hst
      rw [step_reopen_of_openLog hopen] at hreopened
      exact hr.not_copied (c := w.store.view) rfl hst hreopened
  · intro hcut
    obtain ⟨entries, log, hopen⟩ := openLog_cutOff hX hline hcut es
    refine ⟨hr.stayed h ⟨h.healthy.1, fun h => by cases h⟩ rfl rfl, fun engine durability => ?_,
      fun engine durability => ?_⟩
    · rw [step_reopen_of_openLog hopen]
    · rw [step_reopen_of_openLog hopen]
      exact hr.stayed h ⟨rfl, fun h => by cases h⟩ rfl hes

/-- **A rename is all or nothing exactly if it does not stop between its two entries**, and leaves
nothing of the first one that counts if its append fails. -/
theorem rename_whole_iff (hX : X.Lawful) {w : World} (hw : w.Reachable X) {fromKey toKey : String}
    {m : MediaManifest} (hvalid : validateKey toKey = .ok ()) (hne : fromKey ≠ toKey)
    (hfrom : w.store.index.manifests[fromKey]? = some m)
    (hto : w.store.index.manifests[toKey]? = none) (stop : Stop) :
    RenamedForGood X w (w.interrupted X stop (.rename fromKey toKey)) fromKey toKey m
      ↔ RenameSafe X w.store.durability stop
          { m with key := toKey, updatedAt := w.store.view.nowSecs } := by
  obtain ⟨s, h⟩ := hw.sim hX
  have hr : Renames w.store.index fromKey toKey m := ⟨hvalid, hne, hfrom, hto⟩
  let c : View := { w.store.view with io := stop.io }
  have hrc : Renames c.index fromKey toKey m := hr
  have hcall : ∀ v : World, v.step X (.rename fromKey toKey)
      = v.onEngine (StorageEngine.rename X fromKey toKey) .manifest := fun _ => rfl
  rcases made_renameSteps_cases w.store.durability stop.io with h0 | h1 | h2
  · cases stop with
    | crash n engine durability =>
      -- nothing has happened
      obtain ⟨hh, hcalm, hidx, -⟩ := interrupted_of_logged hX h.healthy hcall _
        (does_rename_none hrc (clean_crash n engine durability) h0)
      refine iff_of_true (RenamedWhole.forGood hX hh
        (fun hv hc hi => hr.stayed h hv hc (hi.trans hidx)) hcalm) ⟨by simp [h0], fun fault he => ?_⟩
      cases he
    | ioError n fault =>
      -- the log may have the entry all the same
      obtain ⟨rfl, hf⟩ := made_nil h0
      rw [interrupted_first_iff hX h hr hf]
      refine ⟨fun hcut => ⟨by simp [h0], fun fault' he _ => ?_⟩, fun hsafe => hsafe.2 fault rfl h0⟩
      cases he
      exact hcut
  · -- both are there
    obtain ⟨c', hidx', -, -, hidx, -⟩ := interrupted_of_does hX h.healthy hcall stop
      (P := fun c' => c'.index = copiedIndex c m toKey)
      fun logged hio => ⟨_, does_rename_one hrc hio h1⟩
    exact iff_of_false (fun hgood => hr.not_copied rfl (hidx.trans hidx') hgood.now)
      fun hsafe => hsafe.1 h1
  · -- the object has moved
    have hio : Clean false c.io := by
      cases stop with
      | crash n engine durability => exact fun i => ⟨(clean_crash n engine durability i).1, by simp⟩
      | ioError n fault => exact clean_ioError n fault
    obtain ⟨hh, hcalm, hidx, -⟩ := interrupted_of_logged hX h.healthy hcall stop
      (does_rename_two hrc hio h2)
    refine iff_of_true (RenamedWhole.forGood hX hh
      (fun hv hc hi => hr.moved h hv hc (c := c) rfl (hi.trans hidx)) hcalm) ⟨?_, fun _ _ hnil => ?_⟩
    · rw [h2]
      simp [renameSteps]
    · rw [h2] at hnil
      cases hnil

/-! ## A rename that stops in between -/

def singleCalls : List Call := [.reopen ⟨1, 0, false⟩ .sync, .store "a" [1] "" []]

/-- An object under the key `"a"`, in a log that is synced. -/
def single : World :=
  ((World.fresh ⟨1, 0, false⟩ "data" (Stream'.const .ok)).run Crates.reference singleCalls).1

theorem single_reachable : single.Reachable Crates.reference :=
  ⟨⟨1, 0, false⟩, "data", singleCalls, by decide, by simp [singleCalls, Call.Sized], rfl⟩

/-- The new manifest is written but not synced. -/
theorem rename_whole_iff_single : ∃ m, single.store.index.manifests["a"]? = some m ∧
    (RenamedForGood Crates.reference single
        (single.interrupted Crates.reference (.ioError 0 .sync) (.rename "a" "c")) "a" "c" m
      ↔ RenameSafe Crates.reference single.store.durability (.ioError 0 .sync)
          { m with key := "c", updatedAt := single.store.view.nowSecs }) := by
  have hsome : (single.store.index.manifests["a"]?).isSome = true := by decide +kernel
  obtain ⟨m, hm⟩ := Option.isSome_iff_exists.1 hsome
  exact ⟨m, hm, rename_whole_iff Crates.reference_lawful single_reachable (by decide) (by decide)
    hm (by decide +kernel) (.ioError 0 .sync)⟩

/-- The removal of the old one fails: the object is under both keys. -/
theorem rename_not_whole : single.Reachable Crates.reference ∧ validateKey "c" = .ok () ∧
    (single.store.index.manifests["a"]?).isSome ∧ single.store.index.manifests["c"]? = none ∧
    ∀ m, ¬ RenamedWhole Crates.reference single
      (single.interrupted Crates.reference (.ioError 1 (.write 0)) (.rename "a" "c")) "a" "c" m := by
  refine ⟨single_reachable, by decide, by decide +kernel, by decide +kernel, fun m h => ?_⟩
  have ha : ((single.interrupted Crates.reference (.ioError 1 (.write 0))
      (.rename "a" "c")).store.index.manifests["a"]?).isSome = true := by decide +kernel
  have hc : ((single.interrupted Crates.reference (.ioError 1 (.write 0))
      (.rename "a" "c")).store.index.manifests["c"]?).isSome = true := by decide +kernel
  obtain ⟨m', -, ⟨-, h⟩ | ⟨h, -⟩⟩ := h.one
  · rw [h] at hc
    cases hc
  · rw [h] at ha
    cases ha

end KaidaDB
