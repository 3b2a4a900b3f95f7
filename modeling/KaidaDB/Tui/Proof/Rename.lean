import KaidaDB.Api.Proof.Handlers
import KaidaDB.Api.Proof.VariantCount
import KaidaDB.Lib.Relocate
import KaidaDB.Storage.Proof.Refinement
import KaidaDB.Tui.Proof.BrowseTree
import KaidaDB.Tui.Rename

/-!
# Renaming a directory

The requests of `execute_rename` are moves of manifests, one at a time (`renameKeys_run`): one is refused
where a manifest still stands at the target. So a directory is moved as a whole exactly if no key is moved
to the place of a later one (`directory_rename_iff`).
-/

namespace KaidaDB

open Std Effects Relocate

variable {X : Crates} {D : Set Bytes} {need : ChunkId → Int}

/-! ## One request -/

/-- The engine works without errors from here. -/
structure Store.Ready (X : Crates) (D : Set Bytes) (need : ChunkId → Int) (s : Store) : Prop where
  healthy : (lens X true).healthy s
  calm : s.view.Calm
  sound : Sound X D s.view need

/-- The manifests as a table. -/
def Store.lookup (s : Store) (key : String) : Option MediaManifest := s.index.manifests[key]?

/-- The manifest that a rename writes. -/
def relabel (f : String → String) (now : Int) (key : String) (m : MediaManifest) : MediaManifest :=
  { m with key := f key, updatedAt := now }

/-- A rename finds nothing, or its target taken. -/
theorem does_rename_refused {c : View} {fromKey toKey : String} (hvalid : validateKey toKey = .ok ())
    (hne : fromKey ≠ toKey)
    (h : c.index.manifests[fromKey]? = none ∨ (c.index.manifests[toKey]?).isSome = true) :
    ∃ e : KaidaDbError, Does (lens X true) (StorageEngine.rename X fromKey toKey) c
      (.error (.error e)) c := by
  rw [StorageEngine.rename, hvalid, if_neg hne]
  cases hfrom : c.index.manifests[fromKey]? with
  | none =>
    refine ⟨.notFound fromKey, Does.bind (Does.pure ()) (Does.bind does_getManifest ?_)⟩
    rw [hfrom]
    exact Does.throw _
  | some m =>
    have hto := h.resolve_left (by simp [hfrom])
    refine ⟨.alreadyExists toKey, Does.bind (Does.pure ()) (Does.bind does_getManifest ?_)⟩
    rw [hfrom]
    refine Does.bind does_getManifest ?_
    rw [if_pos hto]
    exact Does.bind_error (Does.throw _)

section
variable {fromKey toKey : String} {cache : ChunkCache} {s s' : Store} (hfrom : fromKey ≠ "")
  (hto : toKey ≠ "")
include hfrom hto

theorem requestRename_ok {m : MediaManifest} (h : StorageEngine.rename X fromKey toKey s = .ok m s') :
    requestRename X fromKey toKey cache s
      = .ok (.ok ⟨m.key, m.totalSize, m.contentType⟩, cache) s' := by
  rw [requestRename, Grpc.renameMedia, run_intoInner]
  dsimp only
  rw [if_neg (by simp [hfrom, hto])]
  exact run_bind_ok (mapErr_ok _ h cache) _

theorem requestRename_error {e : KaidaDbError}
    (h : StorageEngine.rename X fromKey toKey s = .error (.error e) s') :
    requestRename X fromKey toKey cache s = .ok (.error (Grpc.renameStatus e), cache) s' := by
  rw [requestRename, Grpc.renameMedia, run_intoInner]
  dsimp only
  rw [if_neg (by simp [hfrom, hto])]
  exact run_bind_error (mapErr_error _ h cache) _

end

/-- **A request is a move** of a manifest. -/
theorem requestRename_step {f : String → String} {key : String} {s : Store} (hs : s.Ready X D need)
    (hvalid : validateKey (f key) = .ok ()) (hempty : f key ≠ "") (hkey : key ≠ "") (hne : f key ≠ key)
    (cache : ChunkCache) :
    ∃ r s', requestRename X key (f key) cache s = .ok (r, cache) s' ∧ s'.Ready X D need ∧
      s'.files = s.files ∧ s'.clock = s.clock ∧
      ((∃ response, r = .ok response ∧
          move f (relabel f s.view.nowSecs) s.lookup key = some s'.lookup) ∨
        (∃ status, r = .error status ∧ move f (relabel f s.view.nowSecs) s.lookup key = none ∧
          s'.lookup = s.lookup)) := by
  by_cases hfree : s.lookup key = none ∨ (s.lookup (f key)).isSome = true
  · obtain ⟨e, hdoes⟩ := does_rename_refused (X := X) (c := s.view) hvalid hne.symm hfree
    obtain ⟨s', hrun, hhealthy, hview⟩ := hdoes s hs.healthy rfl
    replace hview : s'.view = s.view := hview
    refine ⟨_, s', requestRename_error hkey hempty hrun,
      ⟨hhealthy, hview.symm ▸ hs.calm, hview.symm ▸ hs.sound⟩,
      congrArg View.files hview, congrArg View.clock hview, .inr ⟨_, rfl, ?_, ?_⟩⟩
    · rw [move]
      rcases hfree with hnone | hsome
      · rw [hnone]
      · cases hlookup : s.lookup key with
        | none => rfl
        | some m => exact if_pos hsome
    · funext k
      exact congrArg (fun v : View => v.index.manifests[k]?) hview
  · obtain ⟨hfrom, hto⟩ := not_or.1 hfree
    obtain ⟨m, hm⟩ := Option.ne_none_iff_exists'.1 hfrom
    have hto := Option.not_isSome_iff_eq_none.1 hto
    obtain ⟨m', c', hdoes, hcalm, hsound, hm', hmanifests, hfiles, hclock⟩ :=
      does_rename (X := X) hs.calm hs.sound hvalid hne.symm hm hto
    obtain ⟨s', hrun, hhealthy, hview⟩ := hdoes s hs.healthy rfl
    subst hview
    refine ⟨_, s', requestRename_ok hkey hempty hrun, ⟨hhealthy, hcalm, hsound⟩, hfiles, hclock,
      .inl ⟨_, rfl, ?_⟩⟩
    have hlookup : s'.lookup = moved f (relabel f s.view.nowSecs) s.lookup key m := by
      funext k
      have hk : s'.lookup k = ((s.index.manifests.insert (f key) m').erase key)[k]? :=
        congrArg (fun t : ExtTreeMap String MediaManifest => t[k]?) hmanifests
      rw [hk, FinMap.get_erase, FinMap.get_insert, hm', moved, Function.update_apply,
        Function.update_apply]
      simp only [eq_comm (a := k), relabel]
      rfl
    rw [move, hm, hlookup]
    exact if_neg (by rw [hto]; exact Bool.false_ne_true)

/-! ## All requests -/

/-- **The loop moves the manifests one at a time.** -/
theorem renameKeys_run {oldPrefix newPrefix : String} {now : Int} (cache : ChunkCache) :
    ∀ (keys : List String) (success failed : Nat) {s : Store}, s.Ready X D need →
      s.view.nowSecs = now →
      (∀ key ∈ keys, validateKey (renamedKey oldPrefix newPrefix key) = .ok () ∧
        renamedKey oldPrefix newPrefix key ≠ "" ∧ key ≠ "" ∧
        renamedKey oldPrefix newPrefix key ≠ key) →
      let f := renamedKey oldPrefix newPrefix
      let result := moveAll f (relabel f now) keys s.lookup
      ∃ success' s', renameKeys X oldPrefix newPrefix keys (success, failed) cache s
          = .ok ((success', failed + result.2), cache) s' ∧
        s'.lookup = result.1 ∧ s'.files = s.files
  | [], success, failed, s, _, _, _ => ⟨success, s, rfl, rfl, rfl⟩
  | key :: keys, success, failed, s, hs, hnow, hkeys => by
    intro f result
    obtain ⟨hvalid, hempty, hkey, hne⟩ := hkeys key List.mem_cons_self
    obtain ⟨r, s1, hrun, hs1, hfiles, hclock, hmove⟩ :=
      requestRename_step (f := f) hs hvalid hempty hkey hne cache
    have hnow1 : s1.view.nowSecs = now := by
      rw [← hnow]
      unfold View.nowSecs
      rw [show s1.view.clock = s.view.clock from hclock]
    have hrest := fun k hk => hkeys k (List.mem_cons_of_mem _ hk)
    rw [renameKeys, run_bind_server hrun]
    rcases hmove with ⟨response, rfl, hmove⟩ | ⟨status, rfl, hmove, hlookup⟩
    · obtain ⟨success', s', hloop, hresult, hfiles'⟩ :=
        renameKeys_run cache keys (success + 1) failed hs1 hnow1 hrest
      rw [hnow] at hmove
      have hall : result = moveAll f (relabel f now) keys s1.lookup := by
        rw [show result = moveAll f (relabel f now) (key :: keys) s.lookup from rfl, moveAll, hmove]
      rw [hall]
      exact ⟨success', s', hloop, hresult, hfiles'.trans hfiles⟩
    · obtain ⟨success', s', hloop, hresult, hfiles'⟩ :=
        renameKeys_run cache keys success (failed + 1) hs1 hnow1 hrest
      rw [hnow] at hmove
      have hall : result = ((moveAll f (relabel f now) keys s1.lookup).1,
          (moveAll f (relabel f now) keys s1.lookup).2 + 1) := by
        rw [show result = moveAll f (relabel f now) (key :: keys) s.lookup from rfl, moveAll, hmove,
          hlookup]
      rw [hall]
      refine ⟨success', s', hloop.trans ?_, hresult, hfiles'.trans hfiles⟩
      rw [Nat.add_assoc, Nat.add_comm 1]

/-! ## The keys of a directory -/

section
variable {oldPrefix newPrefix key key' : String}

theorem renamedKey_toList {r : List Char} (h : key.toList = oldPrefix.toList ++ r) :
    (renamedKey oldPrefix newPrefix key).toList = newPrefix.toList ++ r := by
  rw [renamedKey, h, List.drop_left, String.toList_append, String.toList_ofList]

theorem renamedKey_injOn (h : startsWith key oldPrefix = true) (h' : startsWith key' oldPrefix = true)
    (heq : renamedKey oldPrefix newPrefix key = renamedKey oldPrefix newPrefix key') : key = key' := by
  obtain ⟨r, hr⟩ := startsWith_iff.1 h
  obtain ⟨r', hr'⟩ := startsWith_iff.1 h'
  have hlists := congrArg String.toList heq
  rw [renamedKey_toList hr, renamedKey_toList hr'] at hlists
  exact String.toList_inj.1 (by rw [hr, hr', List.append_cancel_left hlists])

theorem renamedKey_ne (hne : oldPrefix ≠ newPrefix) (h : startsWith key oldPrefix = true) :
    renamedKey oldPrefix newPrefix key ≠ key := fun heq => by
  obtain ⟨r, hr⟩ := startsWith_iff.1 h
  have hlists := congrArg String.toList heq
  rw [renamedKey_toList hr, hr] at hlists
  exact hne (String.toList_inj.1 (List.append_cancel_right hlists)).symm

/-- The keys below a prefix. -/
def IndexState.keysBelow (s : IndexState) (keyPrefix : String) : List String :=
  s.keys.filter fun key => startsWith key keyPrefix

theorem mem_keysBelow {s : IndexState} : key ∈ s.keysBelow oldPrefix ↔
    (s.manifests[key]?).isSome ∧ startsWith key oldPrefix = true := by
  rw [IndexState.keysBelow, List.mem_filter, mem_keys]

theorem keysBelow_sorted (s : IndexState) (keyPrefix : String) :
    (s.keysBelow keyPrefix).Pairwise (· < ·) :=
  (List.pairwise_map.2 (entries_sorted s)).filter _

variable {s s' : Store} (hne : oldPrefix ≠ newPrefix)
  (hfit : Relocatable oldPrefix newPrefix s.index)
include hne hfit

theorem Relocatable.free_keys :
    Free (renamedKey oldPrefix newPrefix) (s.index.keysBelow oldPrefix) s.lookup where
  nodup := (nodup_keys s.index).filter _
  injOn key hkey key' hkey' heq :=
    renamedKey_injOn (mem_keysBelow.1 hkey).2 (mem_keysBelow.1 hkey').2 heq
  stored key hkey := (mem_keysBelow.1 hkey).1
  target key hkey hsome := by
    obtain ⟨hstored, hbelow⟩ := mem_keysBelow.1 hkey
    refine mem_keysBelow.2 ⟨hsome, ?_⟩
    by_contra hout
    exact hfit.free key _ hstored hbelow hsome (Bool.eq_false_iff.2 hout) rfl
  moves key hkey := renamedKey_ne hne (mem_keysBelow.1 hkey).2

omit hne hfit in
/-- Moved entries make a moved directory. -/
theorem directoryMoved_of_relocated (now : Int) (hfiles : s'.files = s.files)
    (h : Relocated (renamedKey oldPrefix newPrefix)
      (relabel (renamedKey oldPrefix newPrefix) now) (s.index.keysBelow oldPrefix) s.lookup s'.lookup) :
    DirectoryMoved oldPrefix newPrefix s s' where
  moved key m hm hbelow := by
    have hmoved := h.moved key (mem_keysBelow.2 ⟨by rw [hm]; rfl, hbelow⟩)
    rw [show s.lookup key = some m from hm] at hmoved
    exact ⟨_, hmoved, rfl, rfl⟩
  left key hbelow hno := by
    by_cases hstored : (s.index.manifests[key]?).isSome = true
    · exact h.left key (mem_keysBelow.2 ⟨hstored, hbelow⟩) fun key' hkey' =>
        hno key' (mem_keysBelow.1 hkey').1 (mem_keysBelow.1 hkey').2
    · have hother := h.others key (fun hkey => hstored (mem_keysBelow.1 hkey).1) fun key' hkey' =>
        hno key' (mem_keysBelow.1 hkey').1 (mem_keysBelow.1 hkey').2
      exact hother.trans (Option.not_isSome_iff_eq_none.1 hstored)
  others key hout hno := h.others key (fun hkey => by simp [(mem_keysBelow.1 hkey).2] at hout)
    fun key' hkey' => hno key' (mem_keysBelow.1 hkey').1 (mem_keysBelow.1 hkey').2
  files := hfiles

theorem targetsMoveFirst_iff :
    TargetsMoveFirst oldPrefix newPrefix s.index ↔ (s.index.keysBelow oldPrefix).Pairwise
      fun key key' => renamedKey oldPrefix newPrefix key ≠ key' := by
  have hfree := hfit.free_keys hne
  rw [pairwise_target_iff (keysBelow_sorted _ _) hfree.moves]
  constructor
  · intro h key hkey htarget
    exact h key (mem_keysBelow.1 hkey).1 (mem_keysBelow.1 hkey).2 (mem_keysBelow.1 htarget).1
  · intro h key hstored hbelow htarget
    have hkey := mem_keysBelow.2 ⟨hstored, hbelow⟩
    exact h key hkey (hfree.target key hkey htarget)

omit hne in
/-- A directory whose keys would get shorter is not moved by doing nothing. -/
theorem no_keys_of_directoryMoved (hshort : newPrefix.toList.length < oldPrefix.toList.length)
    (hmoved : DirectoryMoved oldPrefix newPrefix s s) (n : Nat) : ∀ key : String,
    key.toList.length = n → (s.index.manifests[key]?).isSome → startsWith key oldPrefix = false := by
  induction n using Nat.strongRecOn with
  | ind n ih =>
    intro key hlen hstored
    by_contra hbelow
    have hbelow := (Bool.not_eq_false _).mp hbelow
    obtain ⟨m, hm⟩ := Option.isSome_iff_exists.1 hstored
    obtain ⟨m', hm', -, -⟩ := hmoved.moved key m hm hbelow
    have hstored' : (s.index.manifests[renamedKey oldPrefix newPrefix key]?).isSome = true := by
      rw [hm']
      rfl
    obtain ⟨r, hr⟩ := startsWith_iff.1 hbelow
    have hshorter : (renamedKey oldPrefix newPrefix key).toList.length < n := by
      rw [renamedKey_toList hr, ← hlen, hr, List.length_append, List.length_append]
      omega
    exact hfit.free key _ hstored hbelow hstored' (ih _ hshorter _ rfl hstored') rfl

end

/-! ## The whole directory -/

theorem slash_ne {a b : String} (h : a ≠ b) : a ++ "/" ≠ b ++ "/" := fun heq =>
  h ((String.append_left_inj _).1 heq)

/-- A directory is renamed in a store that works without errors. -/
theorem executeRename_run {app : RenameState} {s : Store} (hs : s.Ready X D need)
    (display : Status → String) (cache : ChunkCache) (hdir : app.renameIsDir = true)
    (hitems : app.items.map MediaItem.key = s.index.keys)
    (hne : trim app.renameInput ≠ app.renameOriginalKey)
    (hfit : Relocatable (app.renameOriginalKey ++ "/") (trim app.renameInput ++ "/") s.index) :
    let oldPrefix := app.renameOriginalKey ++ "/"
    let newPrefix := trim app.renameInput ++ "/"
    ∃ app' failed s', app.executeRename X display cache s = .ok ((app', failed), cache) s' ∧
      ((failed = 0 ∧ DirectoryMoved oldPrefix newPrefix s s') ↔
        (∀ key, (s.index.manifests[key]?).isSome → startsWith key oldPrefix = false) ∨
        trim app.renameInput ≠ "" ∧ TargetsMoveFirst oldPrefix newPrefix s.index) := by
  intro oldPrefix newPrefix
  have hprefix : oldPrefix ≠ newPrefix := slash_ne hne.symm
  have hkeys : app.keysToRename = s.index.keysBelow oldPrefix := by
    rw [RenameState.keysToRename, hitems]
    rfl
  have hnothing : (∀ key, (s.index.manifests[key]?).isSome → startsWith key oldPrefix = false) →
      DirectoryMoved oldPrefix newPrefix s s := fun hnone =>
    directoryMoved_of_relocated 0 rfl (by
      have hnil : s.index.keysBelow oldPrefix = [] := List.eq_nil_iff_forall_not_mem.2 fun key hkey => by
        obtain ⟨hstored, hbelow⟩ := mem_keysBelow.1 hkey
        simp [hnone key hstored] at hbelow
      rw [hnil]
      exact ⟨fun _ h => absurd h List.not_mem_nil, fun _ h => absurd h List.not_mem_nil,
        fun _ _ _ => rfl⟩)
  rw [RenameState.executeRename]
  by_cases hempty : trim app.renameInput = ""
  · rw [if_pos hempty]
    refine ⟨_, 0, s, rfl, ⟨fun ⟨_, hmoved⟩ => .inl fun key => ?_, fun h => ⟨rfl, ?_⟩⟩⟩
    · refine no_keys_of_directoryMoved hfit ?_ hmoved _ key rfl
      have hold : app.renameOriginalKey.toList ≠ [] := fun hnil => hne (by
        rw [hempty, String.toList_eq_nil_iff.1 hnil])
      simp [hempty, List.length_pos_iff.2 hold]
    · exact hnothing (h.resolve_right fun h => h.1 hempty)
  rw [if_neg hempty, if_neg hne, hdir, hkeys]
  dsimp only
  by_cases hnil : s.index.keysBelow oldPrefix = []
  · rw [if_pos rfl, if_pos hnil]
    have hnone : ∀ key, (s.index.manifests[key]?).isSome → startsWith key oldPrefix = false := by
      intro key hstored
      by_contra hbelow
      exact List.not_mem_nil (hnil ▸ mem_keysBelow.2 ⟨hstored, (Bool.not_eq_false _).mp hbelow⟩)
    exact ⟨_, 0, s, rfl, fun _ => .inl hnone, fun _ => ⟨rfl, hnothing hnone⟩⟩
  · rw [if_pos rfl, if_neg hnil]
    have hfree := hfit.free_keys hprefix
    obtain ⟨success, s', hrun, hlookup, hfiles⟩ := renameKeys_run cache (s.index.keysBelow oldPrefix)
      0 0 hs (rfl : s.view.nowSecs = _) fun key hkey => by
        obtain ⟨hstored, hbelow⟩ := mem_keysBelow.1 hkey
        have hvalid := hfit.valid key hstored hbelow
        refine ⟨hvalid, ne_empty_of_valid hvalid, ?_, renamedKey_ne hprefix hbelow⟩
        rintro rfl
        obtain ⟨r, hr⟩ := startsWith_iff.1 hbelow
        simp [oldPrefix] at hr
    rw [Nat.zero_add] at hrun
    rw [run_bind_server hrun]
    refine ⟨_, _, s', rfl, ?_⟩
    rw [refused_eq_zero_iff hfree, ← targetsMoveFirst_iff hprefix hfit]
    constructor
    · exact fun h => .inr ⟨hempty, h.1⟩
    · rintro (hnone | ⟨-, hfirst⟩)
      · obtain ⟨key, hkey⟩ := List.exists_mem_of_ne_nil _ hnil
        obtain ⟨hstored, hbelow⟩ := mem_keysBelow.1 hkey
        simp [hnone key hstored] at hbelow
      · refine ⟨hfirst, directoryMoved_of_relocated s.view.nowSecs hfiles ?_⟩
        rw [hlookup]
        exact relocated_of_refused hfree
          ((refused_eq_zero_iff hfree).2 ((targetsMoveFirst_iff hprefix hfit).1 hfirst))

/-- **A directory is renamed as a whole** exactly if there is nothing below it, or the new path is not empty
and no key is moved to the place of one that is moved later. -/
theorem directory_rename_iff (hX : X.Lawful) {w : World} (hw : w.Reachable X) {app : RenameState}
    (display : Status → String) (cache : ChunkCache) (hdir : app.renameIsDir = true)
    (hitems : app.items.map MediaItem.key = w.store.index.keys)
    (hne : trim app.renameInput ≠ app.renameOriginalKey)
    (hfit : Relocatable (app.renameOriginalKey ++ "/") (trim app.renameInput ++ "/") w.store.index) :
    let oldPrefix := app.renameOriginalKey ++ "/"
    let newPrefix := trim app.renameInput ++ "/"
    ∃ app' failed s', app.executeRename X display cache w.store = .ok ((app', failed), cache) s' ∧
      ((failed = 0 ∧ DirectoryMoved oldPrefix newPrefix w.store s') ↔
        (∀ key, (w.store.index.manifests[key]?).isSome → startsWith key oldPrefix = false) ∨
        trim app.renameInput ≠ "" ∧ TargetsMoveFirst oldPrefix newPrefix w.store.index) := by
  obtain ⟨spec, hsim⟩ := hw.sim hX
  exact executeRename_run ⟨hsim.healthy, hsim.calm, hsim.sound⟩ display cache hdir hitems hne hfit

/-- An object in a directory, and one in a directory of the same name in it. -/
def nested : World :=
  ((World.fresh ⟨4, 0, false⟩ "data" (Stream'.const .ok)).run .reference
    [.store "a/a/y" [] "" [], .store "a/a/a/y" [] "" []]).1

theorem nested_reachable : nested.Reachable .reference :=
  ⟨_, _, _, by decide, by simp [Call.Sized], rfl⟩

theorem nested_keys : nested.store.index.keys = ["a/a/a/y", "a/a/y"] := by decide +kernel

theorem nested_stored {key : String} :
    (nested.store.index.manifests[key]?).isSome ↔ key = "a/a/a/y" ∨ key = "a/a/y" := by
  rw [← mem_keys, nested_keys, List.mem_cons, List.mem_singleton]

/-- The directory `a/a` is selected and the path `new` has been typed in. -/
def typed (new : String) : RenameState where
  items := [⟨"a/a/a/y", "", 0⟩, ⟨"a/a/y", "", 0⟩]
  renameInput := new
  renameCursor := 0
  renameOriginalKey := "a/a"
  renameIsDir := true
  statusMessage := ""
  inputMode := .renameInput

theorem nested_relocatable {newPrefix : String}
    (h : ∀ key ∈ ["a/a/a/y", "a/a/y"], validateKey (renamedKey "a/a/" newPrefix key) = .ok ()) :
    Relocatable "a/a/" newPrefix nested.store.index where
  free _ key' _ _ hstored' hout := by
    rcases nested_stored.1 hstored' with rfl | rfl <;> exact absurd hout (by decide)
  valid key hstored _ := h key (by simpa using nested_stored.1 hstored)

/-- The inner directory moves into another one. -/
theorem directory_rename_iff_apart :
    ∃ app' failed s', (typed "b").executeRename .reference (fun _ => "") (.new 0) nested.store
        = .ok ((app', failed), .new 0) s' ∧
      ((failed = 0 ∧ DirectoryMoved "a/a/" "b/" nested.store s') ↔
        (∀ key, (nested.store.index.manifests[key]?).isSome → startsWith key "a/a/" = false) ∨
        "b" ≠ "" ∧ TargetsMoveFirst "a/a/" "b/" nested.store.index) :=
  @directory_rename_iff _ Crates.reference_lawful _ nested_reachable (typed "b") (fun _ => "")
    (.new 0) rfl (by rw [nested_keys]; rfl) (by decide) (nested_relocatable (by decide))

/-- Moved up by one directory, the first object still finds the second one in its place. -/
theorem directory_rename_half : ¬ ∀ (X : Crates) (w : World) (app : RenameState)
    (display : Status → String) (cache : ChunkCache), X.Lawful → w.Reachable X →
    app.renameIsDir = true → app.items.map MediaItem.key = w.store.index.keys →
    trim app.renameInput ≠ app.renameOriginalKey →
    Relocatable (app.renameOriginalKey ++ "/") (trim app.renameInput ++ "/") w.store.index →
    ∃ app' s', app.executeRename X display cache w.store = .ok ((app', 0), cache) s' ∧
      DirectoryMoved (app.renameOriginalKey ++ "/") (trim app.renameInput ++ "/") w.store s' := by
  intro h
  have hitems : (typed "a").items.map MediaItem.key = nested.store.index.keys := by
    rw [nested_keys]
    rfl
  have hfit : Relocatable "a/a/" "a/" nested.store.index := nested_relocatable (by decide)
  obtain ⟨app', s', hrun, hmoved⟩ := h .reference nested (typed "a") (fun _ => "") (.new 0)
    Crates.reference_lawful nested_reachable rfl hitems (by decide) hfit
  obtain ⟨spec, hsim⟩ := nested_reachable.sim Crates.reference_lawful
  obtain ⟨app'', failed, s'', hrun', hiff⟩ := executeRename_run
    ⟨hsim.healthy, hsim.calm, hsim.sound⟩ (fun _ => "") (.new 0) rfl hitems (by decide) hfit
  cases hrun.symm.trans hrun'
  rcases hiff.1 ⟨rfl, hmoved⟩ with hnone | ⟨-, hfirst⟩
  · exact absurd (hnone "a/a/y" (nested_stored.2 (.inr rfl))) (by decide)
  · have hlt := hfirst "a/a/a/y" (nested_stored.2 (.inl rfl)) (by decide)
      (nested_stored.2 (.inr (by decide)))
    exact absurd hlt (by decide)

end KaidaDB
