import Mathlib.Data.List.Sort
import KaidaDB.Api.DeleteStream
import KaidaDB.Api.Proof.Discovery
import KaidaDB.Api.Proof.Streams
import KaidaDB.Storage.Proof.Beside

/-!
# Deleting a stream removes its keys and nothing else

A page of a listing is the first thousand keys under the stream that are left, and deleting them leaves
the rest (`Purges.page`), so the pages go on from where the last one ended although its keys are gone.
`does_deletePages` is the loop without I/O errors; a run with some that returns `Ok` is the same
(`steady_deletePages`).
-/

namespace KaidaDB

open Std Effects

variable {X : Crates} {D : Set Bytes} {c c' : View} {need : ChunkId → Int} {keyPrefix : String}

/-! ## Deleting keys -/

/-- From `c` the keys in `gone` were deleted and nothing else. -/
structure Purges (X : Crates) (D : Set Bytes) (need : ChunkId → Int) (gone : List String)
    (c c' : View) : Prop where
  calm : c'.Calm
  sound : Sound X D c' need
  manifests : ∀ key, c'.index.manifests[key]? = if key ∈ gone then none else c.index.manifests[key]?
  files : ∀ (hex : String) f, c'.files[hex]? = some f → c.files[hex]? = some f

theorem Purges.nil (hc : c.Calm) (hs : Sound X D c need) : Purges X D need [] c c :=
  ⟨hc, hs, fun _ => by simp, fun _ _ h => h⟩

theorem Purges.append {gone gone' : List String} {c1 c2 c3 : View}
    (h : Purges X D need gone c1 c2) (h' : Purges X D need gone' c2 c3) :
    Purges X D need (gone ++ gone') c1 c3 where
  calm := h'.calm
  sound := h'.sound
  manifests key := by
    rw [h'.manifests, h.manifests]
    by_cases hin : key ∈ gone' <;> simp [hin]
  files hex f hf := h.files hex f (h'.files hex f hf)

/-- One key. -/
theorem does_delete_purges (hc : c.Calm) (hs : Sound X D c need) (key : String) :
    ∃ found c', Does (lens X true) (StorageEngine.delete X key) c (.ok found) c' ∧
      Purges X D need [key] c c' := by
  cases hm : c.index.manifests[key]? with
  | none =>
    refine ⟨false, c, does_delete_none hm, hc, hs, fun k => ?_, fun _ _ h => h⟩
    by_cases hk : k = key
    · subst hk
      simpa using hm
    · simp [hk]
  | some m =>
    obtain ⟨c', hx, hc', hs', hman, hfiles⟩ := does_delete hc hs hm
    refine ⟨true, c', hx, hc', hs', fun k => ?_, hfiles⟩
    rw [hman, FinMap.get_erase]
    simp [eq_comm]

/-- What is added to the counts for a list of keys. -/
def countKeys (counts : Nat × Nat) (keys : List String) : Nat × Nat :=
  (counts.1 + keys.countP (endsWith · "/init.mp4"),
    counts.2 + keys.countP fun key => !endsWith key "/init.mp4")

theorem countKeys_append (counts : Nat × Nat) (keys keys' : List String) :
    countKeys counts (keys ++ keys') = countKeys (countKeys counts keys) keys' := by
  simp only [countKeys, List.countP_append, Nat.add_assoc]

/-- The keys of a page. -/
theorem does_deletePage : ∀ (manifests : List MediaManifest) (counts : Nat × Nat) {c : View},
    c.Calm → Sound X D c need →
    ∃ c', Does (lens X true) (deletePage X manifests counts) c
      (.ok (countKeys counts (manifests.map MediaManifest.key))) c' ∧
      Purges X D need (manifests.map MediaManifest.key) c c'
  | [], counts, c, hc, hs => ⟨c, Does.pure _, Purges.nil hc hs⟩
  | m :: manifests, counts, c, hc, hs => by
    obtain ⟨found, c1, hdelete, hpurge⟩ := does_delete_purges hc hs m.key
    obtain ⟨c2, hrest, hpurge'⟩ := does_deletePage manifests (countKeys counts [m.key])
      hpurge.calm hpurge.sound
    refine ⟨c2, ?_, hpurge.append hpurge'⟩
    have hkeys : countKeys counts (m.key :: manifests.map MediaManifest.key) = _ :=
      countKeys_append counts [m.key] _
    rw [List.map_cons, hkeys]
    have hcounts : countKeys counts [m.key] = if endsWith m.key "/init.mp4"
        then (counts.1 + 1, counts.2) else (counts.1, counts.2 + 1) := by
      cases hend : endsWith m.key "/init.mp4" <;> simp [countKeys, hend]
    rw [hcounts] at hrest ⊢
    exact Does.bind hdelete hrest

/-! ## The pages -/

theorem matchingKeys_eq {s : IndexState} {l : List String} (hl : l.Pairwise (· < ·))
    (h : ∀ key, (s.manifests[key]?).isSome ∧ startsWith key keyPrefix = true ↔ key ∈ l) :
    matchingKeys keyPrefix s = l :=
  (matchingKeys_sorted keyPrefix s).eq_of_mem_iff hl fun key => mem_matchingKeys.trans (h key)

/-- After the first `n` keys with the prefix are deleted the others are left. -/
theorem Purges.page {n : Nat} (h : Purges X D need ((matchingKeys keyPrefix c.index).take n) c c') :
    matchingKeys keyPrefix c'.index = (matchingKeys keyPrefix c.index).drop n := by
  have hsorted := matchingKeys_sorted keyPrefix c.index
  refine matchingKeys_eq (hsorted.sublist (List.drop_sublist _ _)) fun key => ?_
  have hsplit : key ∈ matchingKeys keyPrefix c.index ↔ key ∈ (matchingKeys keyPrefix c.index).take n ∨
      key ∈ (matchingKeys keyPrefix c.index).drop n := by
    rw [← List.mem_append, List.take_append_drop]
  have hapart : key ∈ (matchingKeys keyPrefix c.index).take n →
      key ∉ (matchingKeys keyPrefix c.index).drop n := fun h1 h2 => by
    rw [← List.take_append_drop n (matchingKeys keyPrefix c.index)] at hsorted
    exact lt_irrefl key ((List.pairwise_append.1 hsorted).2.2 key h1 key h2)
  rw [h.manifests]
  by_cases hgone : key ∈ (matchingKeys keyPrefix c.index).take n
  · simp [hgone, hapart hgone]
  · rw [if_neg hgone, ← mem_matchingKeys, hsplit]
    simp [hgone]

/-- **The loop** deletes the keys with the prefix, and needs no more pages than there are keys. -/
theorem does_deletePages (hne : keyPrefix ≠ "") : ∀ (pages : Nat) (cursor : Option String)
    (counts : Nat × Nat) {c : View}, c.Calm → Sound X D c need →
    (matchingKeys keyPrefix c.index).length < pages →
    (∀ x ∈ cursor, startsWith x keyPrefix = true) →
    (∀ x ∈ cursor, ∀ key ∈ matchingKeys keyPrefix c.index, x < key) →
    ∃ c', Does (lens X true) (deletePages X keyPrefix pages (cursor.getD "") counts) c
      (.ok (countKeys counts (matchingKeys keyPrefix c.index))) c' ∧
      Purges X D need (matchingKeys keyPrefix c.index) c c'
  | 0, _, _, _, _, _, hlt, _, _ => absurd hlt (Nat.not_lt_zero _)
  | pages + 1, cursor, counts, c, hc, hs, hlt, hcursor, hbehind => by
    have hempty : ∀ x ∈ cursor, x ≠ "" := fun x hx => ne_empty_of_startsWith hne (hcursor x hx)
    obtain ⟨hkeys, hnext⟩ := listPage_first 999 hs.keyed hempty hcursor hbehind
    generalize hpage : Index.listPage keyPrefix 1000 (cursor.getD "") c.index = page at hkeys hnext
    obtain ⟨manifests, nextCursor⟩ := page
    dsimp only at hkeys hnext
    have hlist : Does (lens X true) (Index.listManifests keyPrefix 1000 (cursor.getD "")) c
        (.ok (manifests, nextCursor)) c :=
      Does.get_bind fun s _ hv => by
        rw [show s.index = c.index from congrArg View.index hv, hpage]
        exact Does.pure _
    obtain ⟨c1, hdelete, hpurge⟩ := does_deletePage manifests counts hc hs
    rw [hkeys] at hdelete hpurge
    unfold deletePages
    cases manifests with
    | nil =>
      -- nothing is left
      have hnil : matchingKeys keyPrefix c.index = [] := by
        have hlen := congrArg List.length hkeys
        rw [List.length_take, List.map_nil, List.length_nil] at hlen
        exact List.eq_nil_of_length_eq_zero (by omega)
      rw [hnil]
      exact ⟨c, Does.bind hlist (Does.pure _), Purges.nil hc hs⟩
    | cons m manifests =>
      by_cases hfull : 1000 ≤ (matchingKeys keyPrefix c.index).length
      · rw [if_pos hfull] at hnext
        obtain ⟨last, hlast, hafter⟩ := Paging.exists_getLast
          (matchingKeys_sorted keyPrefix c.index) (by decide : 0 < 1000) hfull
        rw [hlast] at hnext
        subst hnext
        have hmem : last ∈ matchingKeys keyPrefix c.index :=
          List.mem_of_mem_take (List.mem_of_getLast? hlast)
        have hleft := hpurge.page
        -- the other pages delete what this one has left
        obtain ⟨c2, hrest, hpurge'⟩ := does_deletePages hne pages (some last)
          (countKeys counts ((matchingKeys keyPrefix c.index).take 1000)) hpurge.calm hpurge.sound
          (by rw [hleft, List.length_drop]; omega)
          (fun x hx => by cases hx; exact (mem_matchingKeys.1 hmem).2)
          (fun x hx key hkey => by
            rw [hleft, ← hafter] at hkey
            exact (Paging.mem_after.1 hkey).2 x hx)
        rw [hleft, ← countKeys_append, List.take_append_drop] at hrest
        refine ⟨c2, Does.bind hlist (Does.bind hdelete hrest), ?_⟩
        have hboth := hpurge.append hpurge'
        rwa [hleft, List.take_append_drop] at hboth
      · -- the last page
        have hall : (matchingKeys keyPrefix c.index).take 1000 = matchingKeys keyPrefix c.index :=
          List.take_of_length_le (by omega)
        rw [if_neg hfull] at hnext
        rw [hall] at hdelete hpurge
        subst hnext
        exact ⟨c1, Does.bind hlist (Does.bind hdelete (Does.pure _)), hpurge⟩

/-! ## Runs with I/O errors -/

theorem steady_deletePage : ∀ (manifests : List MediaManifest) (counts : Nat × Nat),
    Steady (deletePage X manifests counts)
  | [], _ => Shadows.pure _
  | m :: manifests, _ => (steady_delete m.key).bind fun _ => steady_deletePage manifests _

/-- The pages fail with an I/O error or do what they do without any. -/
theorem steady_deletePages (keyPrefix : String) : ∀ (pages : Nat) (cursor : String)
    (counts : Nat × Nat), Steady (deletePages X keyPrefix pages cursor counts)
  | 0, _, _ => Shadows.throw _
  | pages + 1, cursor, counts => by
    have hlist : Steady (Index.listManifests keyPrefix 1000 cursor) :=
      steady_reads (Index.listPage keyPrefix 1000 cursor) fun _ => Shadows.pure _
    refine hlist.bind fun page => ?_
    obtain ⟨manifests, nextCursor⟩ := page
    dsimp only
    split_ifs
    · exact Shadows.pure _
    · refine (steady_deletePage manifests counts).bind fun counts' => ?_
      cases nextCursor with
      | none => exact Shadows.pure _
      | some c => exact steady_deletePages keyPrefix pages c counts'

/-! ## The whole stream -/

/-- What is left when all keys under `keyPrefix` have gone from `s`: the other keys have their
manifests, and every one of them reads as before. -/
structure OnlyGone (X : Crates) (keyPrefix : String) (s s' : Store) : Prop where
  gone : ∀ key, startsWith key keyPrefix = true → s'.index.manifests[key]? = none
  kept : ∀ key, startsWith key keyPrefix = false →
    s'.index.manifests[key]? = s.index.manifests[key]?
  reads : ∀ (engine : StorageEngine) key, startsWith key keyPrefix = false →
    returned (engine.read X key s') = returned (engine.read X key s)

/-- Files that are left are as they were, and those of a manifest that is left are left. -/
theorem Purges.onlyGone {s s' t t' : Store} (hst : Beside s t) (hst' : Beside s' t')
    (h : Purges X D need (matchingKeys keyPrefix t.index) t.view t'.view)
    (hneed : ∀ id, 0 ≤ need id) : OnlyGone X keyPrefix s s' := by
  have hkept : ∀ key, startsWith key keyPrefix = false →
      s'.index.manifests[key]? = s.index.manifests[key]? := fun key hkey => by
    have hnot : key ∉ matchingKeys keyPrefix t.index := fun hin => by
      rw [(mem_matchingKeys.1 hin).2] at hkey
      cases hkey
    rw [hst'.index, hst.index, show t'.index.manifests[key]? = _ from h.manifests key, if_neg hnot]
    rfl
  refine ⟨fun key hkey => ?_, hkept, fun engine key hkey => ?_⟩
  · rw [hst'.index, show t'.index.manifests[key]? = _ from h.manifests key]
    split_ifs with hin
    · rfl
    · exact Option.not_isSome_iff_eq_none.1 fun hsome => hin (mem_matchingKeys.2 ⟨hsome, hkey⟩)
  · refine (read_agrees engine (hkept key hkey) fun m hm id hid => ?_).returned_eq
    have hm' : t'.index.manifests[key]? = some m := by rw [← hst'.index, hkept key hkey, hm]
    have hpos : 0 < (t'.index.occurrences id : Int) + need id := by
      have hcount := count_le_occurrences hm' id
      have hone : 0 < m.chunks.count id := List.count_pos_iff.2 hid
      have := hneed id
      omega
    obtain ⟨f, -, hf, -⟩ := h.sound.readable hpos
    rw [hst'.files, hst.files, show t'.files[id.toHex]? = some f from hf]
    exact congrArg (Option.map ChunkFile.bytes) (h.files _ f hf).symm

theorem deletedPrefix_ne (config : StreamingConfig) (streamId : String) :
    deletedPrefix config streamId ≠ "" := fun h => by
  have := congrArg String.toList h
  simp [deletedPrefix] at this

/-- **Deleting a stream** on any file system: an I/O error, if an action of it fails, or all keys under the
stream are gone and nothing else, and the counts are theirs. -/
theorem delete_stream_complete (hX : X.Lawful) {w : World} (hw : w.Reachable X)
    (config : StreamingConfig) (streamId : String) (io : Stream' IoPlan) {pages : Nat}
    (hpages : w.store.index.manifests.size < pages) :
    let s := { w.store with io }
    let keys := matchingKeys (deletedPrefix config streamId) s.index
    (∃ e s', deleteStream X config streamId pages s = .error e s' ∧ e = ioError ∧ ∃ n, io.get n ≠ .ok) ∨
      ∃ counts s', deleteStream X config streamId pages s = .ok counts s' ∧
        OnlyGone X (deletedPrefix config streamId) s s' ∧ counts.1 + counts.2 = keys.length ∧
        counts.1 = keys.countP (endsWith · "/init.mp4") := by
  intro s keys
  obtain ⟨spec, hsim⟩ := hw.sim hX
  have hbeside : Beside s w.store := ⟨rfl, rfl, hsim.calm⟩
  obtain ⟨c', hdoes, hpurge⟩ := does_deletePages (X := X) (deletedPrefix_ne config streamId) pages none
    (0, 0) hsim.calm hsim.sound (Nat.lt_of_le_of_lt (length_matchingKeys_le _) hpages)
    (fun _ h => by cases h) (fun _ h => by cases h)
  obtain ⟨t', hrun, -, rfl⟩ := hdoes w.store hsim.healthy rfl
  rcases (steady_deletePages _ pages "" (0, 0)).ends hbeside hrun with ⟨e, s', hs, he⟩ | ⟨s', hs, hR⟩
  · refine .inl ⟨e, s', hs, he, by_contra fun hnone => ?_⟩
    have hio : io = w.store.io :=
      (funext fun n => not_not.1 (not_exists.1 hnone n)).trans hsim.calm.symm
    have hstore : s = w.store := congrArg (fun io => { w.store with io }) hio
    rw [hstore] at hs
    cases hs.symm.trans hrun
  · refine .inr ⟨_, s', hs, hpurge.onlyGone hbeside hR (needOf_nonneg _), ?_, ?_⟩
    · have hsplit := List.length_eq_countP_add_countP (fun key => endsWith key "/init.mp4") (l := keys)
      simp only [countKeys, Nat.zero_add]
      rw [hsplit]
      congr 1
      exact List.countP_congr fun key _ => by simp
    · exact Nat.zero_add _

theorem delete_stream_complete_inception :
    let s := { inception.store with io := Stream'.const .ok }
    let keys := matchingKeys (deletedPrefix ⟨"streams/"⟩ "inception") s.index
    ∃ counts s', deleteStream .reference ⟨"streams/"⟩ "inception" 3 s = .ok counts s' ∧
      OnlyGone .reference (deletedPrefix ⟨"streams/"⟩ "inception") s s' ∧
      counts.1 + counts.2 = keys.length ∧ counts.1 = keys.countP (endsWith · "/init.mp4") :=
  (delete_stream_complete Crates.reference_lawful inception_reachable ⟨"streams/"⟩ "inception"
    (Stream'.const .ok) (by decide +kernel)).resolve_left fun ⟨_, _, _, _, _, hn⟩ => hn rfl

end KaidaDB
