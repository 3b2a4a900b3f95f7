import KaidaDB.Lib.LexOrder
import KaidaDB.Lib.Paging
import KaidaDB.Storage.Listing
import KaidaDB.Storage.Proof.Refinement

/-!
# Listing is paging over the keys with the prefix

The keys with a prefix lie next to each other in the order of strings, so the loop of `list_manifests`
finds those after the cursor and stops where there are no more (`listPage_eq`). A scan is then one over
the sorted lists of these keys (`scan_eq`), whatever happens to the index between its calls.
-/

namespace KaidaDB

open Std (ExtTreeMap)

/-! ## Prefixes in the order of strings -/

theorem startsWith_iff {s p : String} : startsWith s p = true ↔ ∃ r, s.toList = p.toList ++ r := by
  rw [startsWith, decide_eq_true_eq]
  constructor
  · intro h
    have hsplit := List.take_append_drop p.toList.length s.toList
    rw [h] at hsplit
    exact ⟨_, hsplit.symm⟩
  · rintro ⟨r, h⟩
    rw [h, List.take_left' rfl]

theorem startsWith_empty (s : String) : startsWith s "" = true := startsWith_iff.2 ⟨s.toList, rfl⟩

theorem le_of_startsWith {s p : String} (h : startsWith s p = true) : p ≤ s := by
  obtain ⟨r, hr⟩ := startsWith_iff.1 h
  refine not_lt.1 fun hlt => ?_
  rw [String.lt_iff_toList_lt, hr] at hlt
  exact LexOrder.not_append_lt _ _ hlt

/-- A key between a prefix and a key that starts with it starts with it. -/
theorem startsWith_of_between {p s t : String} (h1 : p ≤ s) (h2 : s ≤ t)
    (ht : startsWith t p = true) : startsWith s p = true := by
  obtain ⟨r, hr⟩ := startsWith_iff.1 ht
  rw [← not_lt, String.lt_iff_toList_lt] at h1 h2
  rw [hr] at h2
  exact startsWith_iff.2 (LexOrder.exists_append_of_between h1 h2)

/-! ## One page -/

/-- The keys of an index in order. -/
def IndexState.keys (s : IndexState) : List String := s.manifests.toList.map Prod.fst

theorem entries_sorted (s : IndexState) :
    s.manifests.toList.Pairwise fun p q => p.1 < q.1 := by
  refine (ExtTreeMap.ordered_keys_toList (t := s.manifests)).imp fun h => ?_
  exact compareOfLessAndEq_eq_lt.1 h

/-- The entries of keys with the prefix. -/
def matching (keyPrefix : String) (s : IndexState) : List (String × MediaManifest) :=
  s.manifests.toList.filter fun p => startsWith p.1 keyPrefix

variable {keyPrefix cursor : String} {limit : Nat}

theorem takeWhile_eq_filter {α : Type} {f : α → Bool} : ∀ {l : List α},
    l.Pairwise (fun a b => f b = true → f a = true) → l.takeWhile f = l.filter f
  | [], _ => rfl
  | a :: l, h => by
    obtain ⟨ha, hl⟩ := List.pairwise_cons.1 h
    cases hf : f a with
    | true => rw [List.takeWhile_cons_of_pos hf, List.filter_cons_of_pos hf, takeWhile_eq_filter hl]
    | false =>
      have hnil : l.filter f = [] := List.filter_eq_nil_iff.2 fun b hb hfb => by
        rw [ha b hb hfb] at hf
        cases hf
      rw [List.takeWhile_cons_of_neg (by simp [hf]), List.filter_cons_of_neg (by simp [hf]), hnil]

/-- What the loop is to return once it has found so many entries; `n + 1` of them fit on the page. -/
def pageOf (n : Nat) (found : List (String × MediaManifest)) :
    List MediaManifest × Option String :=
  ((found.take (n + 1)).map Prod.snd,
    if n + 1 ≤ found.length then (found.take (n + 1)).getLast?.map Prod.fst else none)

theorem pageOf_succ (n : Nat) (e : String × MediaManifest) (found : List (String × MediaManifest)) :
    pageOf (n + 1) (e :: found) = (e.2 :: (pageOf n found).1, (pageOf n found).2) := by
  rw [pageOf, pageOf, List.take_succ_cons, List.map_cons, List.length_cons]
  simp only [Nat.add_le_add_iff_right]
  split_ifs with hfull
  · cases found with
    | nil => simp at hfull
    | cons x xs => rw [List.take_succ_cons, List.getLast?_cons_cons]
  · rfl

/-- The loop takes entries up to the first one without the prefix, except that of the cursor. -/
theorem listLoop_eq : ∀ {l : List (String × MediaManifest)} {results : List MediaManifest} {n : Nat},
    results.length + (n + 1) = limit →
    Index.listLoop keyPrefix limit cursor l results =
      let found := (l.takeWhile fun p => startsWith p.1 keyPrefix).filter fun p =>
        cursor = "" ∨ p.1 ≠ cursor
      (results ++ (pageOf n found).1, (pageOf n found).2)
  | [], results, n, h => by simp [Index.listLoop, pageOf]
  | (key, manifest) :: rest, results, n, h => by
    rw [Index.listLoop]
    cases hpre : startsWith key keyPrefix with
    | false =>
      have hne : keyPrefix ≠ "" := by
        rintro rfl
        rw [startsWith_empty] at hpre
        cases hpre
      rw [if_pos ⟨hne, rfl⟩, List.takeWhile_cons_of_neg (by simp [hpre])]
      simp [pageOf]
    | true =>
      rw [if_neg (by simp), List.takeWhile_cons_of_pos (by simpa using hpre)]
      by_cases hskip : cursor ≠ "" ∧ key = cursor
      · rw [if_pos hskip, listLoop_eq h, List.filter_cons_of_neg (by simpa using hskip)]
      · rw [if_neg hskip, List.filter_cons_of_pos (by simp only [decide_eq_true_eq]; tauto)]
        dsimp only
        cases n with
        | zero =>
          rw [if_pos (by rw [List.length_append, List.length_singleton]; omega)]
          simp [pageOf]
        | succ n =>
          rw [if_neg (by rw [List.length_append, List.length_singleton]; omega),
            listLoop_eq (n := n) (by rw [List.length_append, List.length_singleton]; omega),
            pageOf_succ]
          simp

/-- **One page**: the entries with the prefix after the cursor, as many as fit. The cursor is empty or
has the prefix. -/
theorem listPage_eq (s : IndexState) {c : Option String} (hc : ∀ x ∈ c, x ≠ "")
    (hpre : ∀ x ∈ c, startsWith x keyPrefix = true) (n : Nat) :
    Index.listPage keyPrefix (n + 1) (c.getD "") s
      = pageOf n ((matching keyPrefix s).filter fun p => ∀ x ∈ c, x < p.1) := by
  generalize hstart : (if c.getD "" = "" then keyPrefix else c.getD "") = start
  have hle : keyPrefix ≤ start := by
    rw [← hstart]
    split_ifs with hempty
    · exact le_refl _
    · cases c with
      | none => exact absurd rfl hempty
      | some x => exact le_of_startsWith (hpre x rfl)
  -- the keys from the start on that have the prefix come first
  have hwhile : (Index.rangeFrom start s.manifests).takeWhile (fun p => startsWith p.1 keyPrefix)
      = (Index.rangeFrom start s.manifests).filter fun p => startsWith p.1 keyPrefix := by
    refine takeWhile_eq_filter (List.Pairwise.imp_of_mem ?_ ((entries_sorted s).filter _))
    intro p q hp _ hlt hq
    have hp : start ≤ p.1 := by simpa using List.of_mem_filter hp
    exact startsWith_of_between (le_trans hle hp) (le_of_lt hlt) hq
  have hfound : ((Index.rangeFrom start s.manifests).filter fun p => startsWith p.1 keyPrefix).filter
      (fun p => c.getD "" = "" ∨ p.1 ≠ c.getD "")
      = (matching keyPrefix s).filter fun p => ∀ x ∈ c, x < p.1 := by
    rw [Index.rangeFrom, matching, List.filter_filter, List.filter_filter, List.filter_filter]
    refine List.filter_congr fun p _ => ?_
    rw [← hstart, Bool.eq_iff_iff]
    cases c with
    | none =>
      have := @le_of_startsWith p.1 keyPrefix
      simpa using this
    | some x =>
      have hx := hc x rfl
      simp only [Option.getD_some, hx, if_false, false_or, Bool.and_eq_true, decide_eq_true_eq,
        Option.mem_def, Option.some.injEq, forall_eq']
      rw [lt_iff_le_and_ne]
      tauto
  have hlimit : ([] : List MediaManifest).length + (n + 1) = n + 1 := Nat.zero_add _
  rw [Index.listPage, hstart, listLoop_eq hlimit, hwhile, hfound]
  rfl

/-! ## The whole scan -/

/-- The keys with the prefix, in order. -/
def matchingKeys (keyPrefix : String) (s : IndexState) : List String :=
  (matching keyPrefix s).map Prod.fst

theorem matchingKeys_sorted (keyPrefix : String) (s : IndexState) :
    (matchingKeys keyPrefix s).Pairwise (· < ·) :=
  List.pairwise_map.2 ((entries_sorted s).filter _)

theorem mem_matchingKeys {s : IndexState} {key : String} :
    key ∈ matchingKeys keyPrefix s
      ↔ (s.manifests[key]?).isSome ∧ startsWith key keyPrefix = true := by
  rw [matchingKeys, List.mem_map]
  constructor
  · rintro ⟨p, hp, rfl⟩
    obtain ⟨hmem, hpre⟩ := List.mem_filter.1 hp
    rw [ExtTreeMap.mem_toList_iff_getElem?_eq_some.1 hmem]
    exact ⟨rfl, hpre⟩
  · rintro ⟨hsome, hpre⟩
    obtain ⟨m, hm⟩ := Option.isSome_iff_exists.1 hsome
    exact ⟨(key, m), List.mem_filter.2 ⟨ExtTreeMap.mem_toList_iff_getElem?_eq_some.2 hm, hpre⟩, rfl⟩

theorem ne_empty_of_startsWith {key : String} (hne : keyPrefix ≠ "")
    (h : startsWith key keyPrefix = true) : key ≠ "" := fun he => by
  obtain ⟨r, hr⟩ := startsWith_iff.1 h
  rw [he] at hr
  exact hne (String.toList_eq_nil_iff.1 (List.append_eq_nil_iff.1 hr.symm).1)

/-- A page from a cursor before all keys with the prefix: the manifests of the first of them, and a next
cursor if they fill the page. -/
theorem listPage_first {s : IndexState} (n : Nat) (hs : s.Keyed) {c : Option String}
    (hempty : ∀ x ∈ c, x ≠ "") (hc : ∀ x ∈ c, startsWith x keyPrefix = true)
    (hbefore : ∀ x ∈ c, ∀ key ∈ matchingKeys keyPrefix s, x < key) :
    let page := Index.listPage keyPrefix (n + 1) (c.getD "") s
    page.1.map MediaManifest.key = (matchingKeys keyPrefix s).take (n + 1) ∧
      page.2 = if n + 1 ≤ (matchingKeys keyPrefix s).length
        then ((matchingKeys keyPrefix s).take (n + 1)).getLast? else none := by
  have hall : (matching keyPrefix s).filter (fun p => ∀ x ∈ c, x < p.1) = matching keyPrefix s := by
    refine List.filter_eq_self.2 fun p hp => decide_eq_true fun x hx => ?_
    exact hbefore x hx p.1 (List.mem_map_of_mem hp)
  intro page
  have hpage : page = pageOf n (matching keyPrefix s) := by
    rw [← hall]
    exact listPage_eq s hempty hc n
  rw [hpage, pageOf, matchingKeys, List.length_map, ← List.map_take, List.getLast?_map, List.map_map]
  refine ⟨List.map_congr_left fun p hp => ?_, rfl⟩
  exact hs _ _ (ExtTreeMap.mem_toList_iff_getElem?_eq_some.1
    (List.mem_of_mem_filter (List.mem_of_mem_take hp)))

/-- Manifests are filed under their keys, none under the empty one. -/
def IndexState.Listable (s : IndexState) : Prop := s.Keyed ∧ s.manifests[""]? = none

theorem matching_key {s : IndexState} (hs : s.Listable) {p : String × MediaManifest}
    (hp : p ∈ matching keyPrefix s) : p.2.key = p.1 ∧ p.1 ≠ "" ∧ startsWith p.1 keyPrefix = true := by
  obtain ⟨hmem, hpre⟩ := List.mem_filter.1 hp
  have hget := ExtTreeMap.mem_toList_iff_getElem?_eq_some.1 hmem
  refine ⟨hs.1 _ _ hget, fun hempty => ?_, hpre⟩
  rw [hempty, hs.2] at hget
  cases hget

/-- **A scan pages over the keys.** -/
theorem scan_eq (keyPrefix : String) (n : Nat) : ∀ {states : List IndexState} {c : Option String},
    (∀ s ∈ states, s.Listable) → (∀ x ∈ c, x ≠ "" ∧ startsWith x keyPrefix = true) →
    let result := scan keyPrefix (n + 1) states (c.getD "")
    let paged := Paging.scan (n + 1) (states.map (matchingKeys keyPrefix)) c
    result.1.map (List.map MediaManifest.key) = paged.1 ∧ (result.2 = none ↔ paged.2 = true)
  | [], c, _, _ => by simp [scan, Paging.scan]
  | s :: states, c, hs, hc => by
    have hlist := hs s List.mem_cons_self
    have hpage := listPage_eq s (fun x hx => (hc x hx).1) (fun x hx => (hc x hx).2) n
    generalize hfound : (matching keyPrefix s).filter (fun p => ∀ x ∈ c, x < p.1) = found at hpage
    have hafter : Paging.after c (matchingKeys keyPrefix s) = found.map Prod.fst := by
      rw [← hfound, Paging.after, matchingKeys, List.filter_map]
      rfl
    have hmem : ∀ p ∈ found, p ∈ matching keyPrefix s := fun p hp =>
      List.mem_of_mem_filter (hfound ▸ hp)
    have hkeys : ((found.take (n + 1)).map Prod.snd).map MediaManifest.key
        = (found.map Prod.fst).take (n + 1) := by
      rw [List.map_map, ← List.map_take]
      exact List.map_congr_left fun p hp => (matching_key hlist (hmem p (List.mem_of_mem_take hp))).1
    rw [List.map_cons, scan, Paging.scan, hpage, hafter, pageOf]
    dsimp only
    rw [List.length_map, ← List.map_take, List.getLast?_map]
    split_ifs with hfull
    · obtain ⟨p, hp⟩ : ∃ p, (found.take (n + 1)).getLast? = some p := by
        refine Option.ne_none_iff_exists'.1 fun hnone => ?_
        have := congrArg List.length (List.getLast?_eq_none_iff.1 hnone)
        rw [List.length_take, List.length_nil] at this
        omega
      obtain ⟨-, hne, hpre⟩ := matching_key hlist (hmem p (List.mem_of_mem_take (List.mem_of_getLast? hp)))
      obtain ⟨h1, h2⟩ := scan_eq keyPrefix n (c := some p.1) (fun s' hs' => hs s' (List.mem_cons_of_mem _ hs'))
        (by rintro x ⟨⟩; exact ⟨hne, hpre⟩)
      rw [hp, Option.map_some]
      dsimp only [Option.getD_some] at h1 h2 ⊢
      rw [List.map_cons, h1, hkeys, ← List.map_take]
      exact ⟨rfl, h2⟩
    · have hshort : found.take (n + 1) = found := List.take_of_length_le (by omega)
      rw [hshort, ← List.map_take, hshort] at hkeys
      rw [hshort, List.map_cons, hkeys]
      exact ⟨rfl, iff_of_true rfl rfl⟩

/-! ## Keys of an engine -/

/-- The keys of objects and uploads are valid. -/
def Spec.ValidKeys (s : Spec) : Prop :=
  (∀ key : String, (s.objects[key]?).isSome → validateKey key = .ok ()) ∧
    ∀ (handle : Nat) u, s.uploads[handle]? = some u → validateKey u.key = .ok ()

theorem Spec.mayBegin_valid {engine : StorageEngine} {key : String}
    (h : mayBegin engine key = .ok ()) : validateKey key = .ok () := by
  unfold mayBegin at h
  cases hkey : validateKey key with
  | ok u => rfl
  | error e =>
    rw [hkey] at h
    cases h

theorem valid_insert {objects : ExtTreeMap String Bytes} {key : String} {data : Bytes}
    (h : ∀ k : String, (objects[k]?).isSome → validateKey k = .ok ())
    (hkey : validateKey key = .ok ()) :
    ∀ k : String, ((objects.insert key data)[k]?).isSome → validateKey k = .ok () := by
  intro k hk
  rw [FinMap.get_insert] at hk
  split_ifs at hk with heq
  · exact heq ▸ hkey
  · exact h k hk

theorem valid_erase {objects : ExtTreeMap String Bytes} {key : String}
    (h : ∀ k : String, (objects[k]?).isSome → validateKey k = .ok ()) :
    ∀ k : String, ((objects.erase key)[k]?).isSome → validateKey k = .ok () := by
  intro k hk
  rw [FinMap.get_erase] at hk
  split_ifs at hk
  · cases hk
  · exact h k hk

theorem Spec.ValidKeys.step {s : Spec} (h : s.ValidKeys) (call : Call) : (s.step call).1.ValidKeys := by
  have herase : ∀ handle : Nat, ({ s with uploads := s.uploads.erase handle } : Spec).ValidKeys := by
    refine fun handle => ⟨h.1, fun a u hu => ?_⟩
    rw [FinMap.get_erase] at hu
    split_ifs at hu
    exact h.2 a u hu
  have hput : ∀ (handle : Nat) (u : Upload), validateKey u.key = .ok () →
      ({ s with uploads := s.uploads.insert handle u } : Spec).ValidKeys := by
    refine fun handle u hkey => ⟨h.1, fun a v hv => ?_⟩
    rw [FinMap.get_insert] at hv
    split_ifs at hv
    · cases hv
      exact hkey
    · exact h.2 a v hv
  cases call with
  | store key data contentType metadata =>
    simp only [Spec.step]
    split
    · exact h
    · exact h
    · rename_i hbegin _
      exact ⟨valid_insert h.1 (mayBegin_valid hbegin), h.2⟩
  | begin handle key contentType metadata =>
    simp only [Spec.step]
    split_ifs
    · exact h
    · split
      · exact h
      · rename_i hbegin
        exact hput handle _ (mayBegin_valid hbegin)
  | write handle data =>
    simp only [Spec.step]
    split
    · exact h
    · rename_i u hu
      split
      · exact h
      · exact hput handle _ (h.2 handle u hu)
  | finish handle =>
    simp only [Spec.step]
    split
    · exact h
    · rename_i u hu
      exact ⟨valid_insert h.1 (h.2 handle u hu), (herase handle).2⟩
  | abort handle | drop handle =>
    simp only [Spec.step]
    split_ifs
    · exact herase handle
    · exact h
  | read key =>
    simp only [Spec.step]
    split <;> exact h
  | delete key => exact ⟨valid_erase h.1, h.2⟩
  | rename fromKey toKey =>
    simp only [Spec.step, Spec.mayRename]
    cases hkey : validateKey toKey with
    | error e => exact h
    | ok u =>
      dsimp only
      split
      · exact h
      · exact ⟨valid_erase (valid_insert h.1 hkey), h.2⟩
  | reopen engine durability =>
    refine ⟨h.1, fun handle u hu => ?_⟩
    simp [Spec.step] at hu
  | gc grace => exact h
  | compact => exact h
  | tick now => exact h

variable {X : Crates}

/-- In a world with valid keys the index can be listed. -/
theorem Sim.listable {D : Set Bytes} {w : World} {s : Spec} (h : Sim X D w s)
    (hs : s.ValidKeys) : w.store.index.Listable := by
  refine ⟨h.sound.keyed, Option.eq_none_iff_forall_ne_some.2 fun m hm => ?_⟩
  have hsome := h.objects.isSome ""
  rw [hm] at hsome
  cases hs.1 "" hsome

theorem Sim.run_valid (hX : X.Lawful) : ∀ (calls : List Call) {w : World} {s : Spec},
    Sim X Set.univ w s → s.ValidKeys → (∀ call ∈ calls, call.Sized) →
    ∃ s', Sim X Set.univ (w.run X calls).1 s' ∧ s'.ValidKeys
  | [], _, s, h, hs, _ => ⟨s, h, hs⟩
  | call :: calls, _, _, h, hs, hsized =>
    Sim.run_valid hX calls (h.next hX call (hsized call List.mem_cons_self) fun _ _ => trivial) (hs.step call)
      fun c hc => hsized c (List.mem_cons_of_mem _ hc)

/-- All states of a run of calls can be listed. -/
theorem states_listable (hX : X.Lawful) : ∀ (changes : List (List Call)) {w : World}
    {s : Spec}, Sim X Set.univ w s → s.ValidKeys →
    (∀ calls ∈ changes, ∀ call ∈ calls, call.Sized) →
    ∀ state ∈ w.states X changes, state.Listable
  | [], w, _, h, hs, _, state, hmem => by
    rw [List.mem_singleton.1 hmem]
    exact h.listable hs
  | calls :: changes, w, _, h, hs, hsized, state, hmem => by
    rcases List.mem_cons.1 hmem with rfl | hmem
    · exact h.listable hs
    · obtain ⟨s', h', hs'⟩ := h.run_valid hX calls hs (hsized calls List.mem_cons_self)
      exact states_listable hX changes h' hs' (fun c hc => hsized c (List.mem_cons_of_mem _ hc))
        state hmem

/-! ## Pagination -/

/-- **Cursor pagination is complete and free of duplicates**, whatever calls run between those that
list: the keys returned increase and have the prefix, no page has more than `limit` of them, and a scan
that ends has returned every key that all its calls could see. -/
theorem pagination_complete (hX : X.Lawful) (engine : StorageEngine) (dataDir : String)
    (setup : List Call) (changes : List (List Call)) (hsize : 0 < engine.chunkSize)
    (hsetup : ∀ call ∈ setup, call.Sized) (hchanges : ∀ calls ∈ changes, ∀ call ∈ calls, call.Sized)
    (keyPrefix : String) (limit : Nat) (hlimit : 1 ≤ limit) :
    let w := ((World.fresh engine dataDir (Stream'.const .ok)).run X setup).1
    let states := w.states X changes
    let result := scan keyPrefix limit states ""
    let keys := result.1.flatten.map MediaManifest.key
    keys.Pairwise (· < ·) ∧ (∀ key ∈ keys, startsWith key keyPrefix = true) ∧
      (∀ page ∈ result.1, page.length ≤ limit) ∧
      (result.2 = none → ∀ key, startsWith key keyPrefix = true →
        (∀ s ∈ states.take result.1.length, (s.manifests[key]?).isSome) → key ∈ keys) ∧
      ∀ calls : Nat,
        let still := scan keyPrefix limit (List.replicate calls w.store.index) ""
        let n := (w.store.index.manifests.toList.filter fun p => startsWith p.1 keyPrefix).length
        still.1.length ≤ n / limit + 1 ∧ (n / limit < calls → still.2 = none) := by
  intro w states result keys
  obtain ⟨n, rfl⟩ : ∃ n, limit = n + 1 := ⟨limit - 1, by omega⟩
  have hfresh : (Spec.fresh engine).ValidKeys :=
    ⟨fun key h => by simp [Spec.fresh] at h, fun handle u h => by simp [Spec.fresh] at h⟩
  obtain ⟨s, hsim, hvalid⟩ := (Sim.fresh hsize dataDir).run_valid hX setup hfresh hsetup
  have hlist : ∀ state ∈ states, state.Listable :=
    states_listable hX changes hsim hvalid hchanges
  have hsorted : ∀ (states : List IndexState) l, l ∈ states.map (matchingKeys keyPrefix) →
      l.Pairwise (· < ·) := by
    intro states l hl
    obtain ⟨state, -, rfl⟩ := List.mem_map.1 hl
    exact matchingKeys_sorted keyPrefix state
  obtain ⟨hpages, hdone⟩ := scan_eq keyPrefix n (c := none) hlist (by simp)
  have hkeys : keys = (Paging.scan (n + 1) (states.map (matchingKeys keyPrefix)) none).1.flatten := by
    rw [← hpages, ← List.map_flatten]
    rfl
  have hlen : result.1.length
      = (Paging.scan (n + 1) (states.map (matchingKeys keyPrefix)) none).1.length := by
    rw [← hpages, List.length_map]
    rfl
  refine ⟨?_, fun key hkey => ?_, fun page hpage => ?_, fun hend key hpre hall => ?_, fun calls => ?_⟩
  · rw [hkeys]
    exact (Paging.scan_sorted none hlimit (hsorted states)).1
  · rw [hkeys, List.mem_flatten] at hkey
    obtain ⟨page, hpage, hkey⟩ := hkey
    obtain ⟨-, l, hl, hin⟩ := Paging.scan_pages page hpage
    obtain ⟨state, -, rfl⟩ := List.mem_map.1 hl
    exact (mem_matchingKeys.1 (hin key hkey)).2
  · have hmem : page.map MediaManifest.key
        ∈ (Paging.scan (n + 1) (states.map (matchingKeys keyPrefix)) none).1 := by
      rw [← hpages]
      exact List.mem_map_of_mem hpage
    have := (Paging.scan_pages _ hmem).1
    rwa [List.length_map] at this
  · rw [hkeys]
    refine Paging.mem_scan hlimit (hsorted states) (hdone.1 hend) (fun l hl => ?_) fun _ hc => by cases hc
    rw [← hlen, ← List.map_take] at hl
    obtain ⟨state, hstate, rfl⟩ := List.mem_map.1 hl
    exact mem_matchingKeys.2 ⟨hall state hstate, hpre⟩
  · intro still m
    have hstill : ∀ state ∈ List.replicate calls w.store.index, state.Listable := fun state hs => by
      rw [List.eq_of_mem_replicate hs]
      exact hsim.listable hvalid
    obtain ⟨hpages, hdone⟩ := scan_eq keyPrefix n (c := none) hstill (by simp)
    rw [List.map_replicate] at hpages hdone
    obtain ⟨h1, h2⟩ := Paging.length_scan hlimit (matchingKeys_sorted keyPrefix w.store.index) calls none
    have hm : (Paging.after none (matchingKeys keyPrefix w.store.index)).length = m := by
      rw [Paging.after, List.filter_eq_self.2 (by simp), matchingKeys, List.length_map]
      rfl
    rw [hm] at h1 h2
    refine ⟨?_, fun hlt => hdone.2 (h2 hlt)⟩
    rw [← hpages, List.length_map] at h1
    exact h1

/-- Between the calls an object that was returned is deleted, and the next one renamed. -/
def movingSetup : List Call := ["a1", "a2", "a4", "b"].map fun key => .store key [] "" []

def movingChanges : List (List Call) := [[.delete "a1"], [.rename "a2" "a3"], [], []]

theorem pagination_complete_moving :
    let w := ((World.fresh ⟨1, 0, false⟩ "data" (Stream'.const .ok)).run .reference movingSetup).1
    let states := w.states .reference movingChanges
    let result := scan "a" 1 states ""
    let keys := result.1.flatten.map MediaManifest.key
    keys.Pairwise (· < ·) ∧ (∀ key ∈ keys, startsWith key "a" = true) ∧
      (∀ page ∈ result.1, page.length ≤ 1) ∧
      (result.2 = none → ∀ key, startsWith key "a" = true →
        (∀ s ∈ states.take result.1.length, (s.manifests[key]?).isSome) → key ∈ keys) ∧
      ∀ calls : Nat,
        let still := scan "a" 1 (List.replicate calls w.store.index) ""
        let n := (w.store.index.manifests.toList.filter fun p => startsWith p.1 "a").length
        still.1.length ≤ n / 1 + 1 ∧ (n / 1 < calls → still.2 = none) :=
  pagination_complete Crates.reference_lawful ⟨1, 0, false⟩ "data" movingSetup movingChanges (by decide)
    (by simp [movingSetup, Call.Sized]) (by simp [movingChanges, Call.Sized]) "a" 1 (le_refl 1)

end KaidaDB
