import KaidaDB.Api.Streams
import KaidaDB.Crates.Reference
import KaidaDB.Lib.TwoOrders
import KaidaDB.Storage.Proof.Listing

/-!
# Stream pages are cut by id and resumed by key

The keys of a stream stand where `prefix id /` stands among the keys, which is not where `id` stands
among the ids: `/` comes after characters such as `-` and `.`. So `list_streams` is an instance of
`TwoOrders` (`followStreams_eq`), and its pages have each stream once if and only if the groups of ids
are fair (`streams_once_iff`). Two streams suffice for one to be skipped (`stream_skipped`).
-/

namespace KaidaDB

open Std (ExtTreeMap)

variable {config : StreamingConfig} {streamPrefix : String} {s : IndexState} {limit : Nat}

/-! ## Ids and keys -/

theorem streamId?_eq {key id : String} (h : streamId? streamPrefix key = some id) :
    '/' ∉ id.toList ∧ ∃ r, key.toList = streamPrefix.toList ++ (id.toList ++ '/' :: r) := by
  simp only [streamId?] at h
  split_ifs at h with hif
  obtain ⟨hpre, hslash⟩ := hif
  obtain ⟨after, hkey⟩ := startsWith_iff.1 hpre
  rw [hkey, List.drop_left' rfl] at h hslash
  obtain ⟨id', r, rfl, hnot⟩ := List.eq_append_cons_of_mem hslash
  have hword : (id' ++ '/' :: r).takeWhile (· ≠ '/') = id' := by
    rw [List.takeWhile_append_of_pos fun c hc => by simpa using ne_of_mem_of_not_mem hc hnot]
    simp
  rw [hword] at h
  cases h
  rw [String.toList_ofList]
  exact ⟨hnot, r, hkey⟩

theorem slash_lt_iff (c : Char) : '/' < c ↔ '0' ≤ c := by
  show '/'.toNat < c.toNat ↔ '0'.toNat ≤ c.toNat
  exact Iff.rfl

/-- Streams by id and by key. -/
def streamOrders (streamPrefix : String) : TwoOrders String String where
  idOf := streamId? streamPrefix
  mark id := streamPrefix ++ id ++ "/"
  cursor id := streamPrefix ++ id ++ "0"
  mark_injective a b h := by
    have := congrArg String.toList h
    exact String.toList_inj.1 (by simpa using this)
  mark_mono := by
    intro k k' t t' hk hk' hle
    obtain ⟨ht, r, hr⟩ := streamId?_eq hk
    obtain ⟨ht', r', hr'⟩ := streamId?_eq hk'
    rw [← not_lt, String.lt_iff_toList_lt] at hle ⊢
    simp only [String.toList_append, List.append_assoc, LexOrder.append_lt_append_iff, hr, hr']
      at hle ⊢
    exact fun hlt => hle (LexOrder.sep_lt_of_sep_lt r' r ht' ht hlt)
  cursor_lt := by
    intro k k' b t hk' hk
    obtain ⟨hb, -⟩ := streamId?_eq hk'
    obtain ⟨ht, r, hr⟩ := streamId?_eq hk
    rw [String.lt_iff_toList_lt, String.lt_iff_toList_lt]
    simp only [String.toList_append, List.append_assoc, LexOrder.append_lt_append_iff, hr]
    exact LexOrder.next_lt_iff slash_lt_iff r hb ht
  between := by
    intro k k' k'' a b c _ _ _ hab hbc hca
    rw [String.lt_iff_toList_lt] at hab hbc hca ⊢
    simp only [String.toList_append, List.append_assoc, LexOrder.append_lt_append_iff] at hca ⊢
    exact LexOrder.sep_lt_of_between hab hbc hca

/-! ## One call -/

theorem countStreams_isSome (id : String) : ∀ (manifests : List MediaManifest)
    (streamIds : ExtTreeMap String Nat),
    ((countStreams streamPrefix manifests streamIds)[id]?).isSome ↔
      (streamIds[id]?).isSome ∨ ∃ m ∈ manifests, streamId? streamPrefix m.key = some id
  | [], streamIds => by simp [countStreams]
  | m :: manifests, streamIds => by
    rw [countStreams]
    split
    · rename_i t ht
      rw [countStreams_isSome id manifests, FinMap.get_insert]
      simp only [List.exists_mem_cons_iff, ht, Option.some.injEq]
      split_ifs with heq <;> simp [heq]
    · rename_i hnone
      rw [countStreams_isSome id manifests]
      simp [hnone]

/-- The streams counted, in the order of ids. -/
theorem countStreams_keys (manifests : List MediaManifest) :
    (countStreams streamPrefix manifests ∅).toList.map Prod.fst
      = ((streamOrders streamPrefix).ids (manifests.map MediaManifest.key)).sort (· ≤ ·) := by
  have hsorted : ((countStreams streamPrefix manifests ∅).toList.map Prod.fst).Pairwise (· < ·) := by
    refine List.pairwise_map.2 (ExtTreeMap.ordered_keys_toList.imp fun h => ?_)
    exact compareOfLessAndEq_eq_lt.1 h
  have hset : ((countStreams streamPrefix manifests ∅).toList.map Prod.fst).toFinset
      = (streamOrders streamPrefix).ids (manifests.map MediaManifest.key) := by
    ext id
    rw [List.mem_toFinset, TwoOrders.mem_ids, List.mem_map]
    have hsome := @countStreams_isSome streamPrefix id manifests ∅
    simp only [ExtTreeMap.getElem?_empty, Option.isSome_none, Bool.false_eq_true, false_or] at hsome
    constructor
    · rintro ⟨p, hp, rfl⟩
      have hget := ExtTreeMap.mem_toList_iff_getElem?_eq_some.1 hp
      rw [hget] at hsome
      obtain ⟨m, hm, hid⟩ := hsome.1 rfl
      exact ⟨m.key, List.mem_map_of_mem hm, hid⟩
    · rintro ⟨key, hkey, hid⟩
      obtain ⟨m, hm, rfl⟩ := List.mem_map.1 hkey
      obtain ⟨n, hn⟩ := Option.isSome_iff_exists.1 (hsome.2 ⟨m, hm, hid⟩)
      exact ⟨(id, n), ExtTreeMap.mem_toList_iff_getElem?_eq_some.2 hn, rfl⟩
  rw [← hset]
  exact ((List.toFinset_sort (· ≤ ·) (hsorted.imp ne_of_lt)).2 (hsorted.imp le_of_lt)).symm

/-- **One call** returns a page of the keys behind its cursor. -/
theorem listStreams_eq (hs : s.Keyed) (limit : Nat) {c : Option String}
    (hc : ∀ x ∈ c, x ≠ "" ∧ startsWith x config.streamPrefix = true) :
    let result := listStreams config "" limit (c.getD "") s
    let page := (streamOrders config.streamPrefix).page streamWindow limit
      (Paging.after c (matchingKeys config.streamPrefix s))
    result.1.map StreamListItem.streamId = page ∧
      result.2 = if page.length = limit then
        page.getLast?.map (streamOrders config.streamPrefix).cursor else none := by
  intro result page
  have hlist := listPage_eq s (fun x hx => (hc x hx).1) (fun x hx => (hc x hx).2) 99999
  have hkeys : (Index.listPage config.streamPrefix streamWindow (c.getD "") s).1.map MediaManifest.key
      = (Paging.after c (matchingKeys config.streamPrefix s)).take streamWindow := by
    rw [streamWindow, hlist, pageOf, Paging.after, matchingKeys, List.filter_map, ← List.map_take,
      List.map_map]
    refine List.map_congr_left fun p hp => ?_
    have hmem := List.mem_of_mem_filter (List.mem_of_mem_filter (List.mem_of_mem_take hp))
    exact hs _ _ (ExtTreeMap.mem_toList_iff_getElem?_eq_some.1 hmem)
  have hpage : result.1.map StreamListItem.streamId = page := by
    rw [show page = _ from TwoOrders.page.eq_1 _ _ _ _, TwoOrders.seen, ← hkeys, ← countStreams_keys,
      ← List.map_take]
    exact List.map_map
  have hlen : result.1.length = page.length := by rw [← hpage, List.length_map]
  refine ⟨hpage, ?_⟩
  rw [← hlen, ← hpage, List.getLast?_map, Option.map_map]
  rfl

/-! ## All calls -/

theorem cursor_ne (id : String) : (streamOrders streamPrefix).cursor id ≠ "" ∧
    startsWith ((streamOrders streamPrefix).cursor id) streamPrefix = true := by
  constructor
  · intro h
    have := congrArg String.toList h
    simp [streamOrders] at this
  · exact startsWith_iff.2 ⟨id.toList ++ ['0'], by simp [streamOrders]⟩

/-- **The calls page over the keys with the prefix.** -/
theorem followStreams_eq (hs : s.Keyed) (config : StreamingConfig) (limit : Nat) :
    ∀ (calls : Nat) {c : Option String},
    (∀ x ∈ c, x ≠ "" ∧ startsWith x config.streamPrefix = true) →
    (followStreams config limit s calls (c.getD "")).map (List.map (List.map StreamListItem.streamId))
      = (streamOrders config.streamPrefix).pages streamWindow limit calls
          (Paging.after c (matchingKeys config.streamPrefix s))
  | 0, _, _ => rfl
  | calls + 1, c, hc => by
    obtain ⟨hpage, hnext⟩ := listStreams_eq hs limit hc
    generalize hpageq : (streamOrders config.streamPrefix).page streamWindow limit
      (Paging.after c (matchingKeys config.streamPrefix s)) = page at hpage hnext
    rw [followStreams, TwoOrders.pages, hpageq]
    generalize listStreams config "" limit (c.getD "") s = result at hpage hnext
    obtain ⟨items, next⟩ := result
    dsimp only at hpage hnext
    subst hnext
    cases hlast : page.getLast? with
    | none => simp [hpage]
    | some b =>
      dsimp only [Option.map_some]
      split_ifs with hfull
      · have hseen : b ∈ (streamOrders config.streamPrefix).seen streamWindow
            (Paging.after c (matchingKeys config.streamPrefix s)) :=
          TwoOrders.page_seen (hpageq ▸ List.mem_of_getLast? hlast)
        obtain ⟨k, hk, hid⟩ := TwoOrders.mem_ids.1 (TwoOrders.seen_subset hseen)
        have hrest : Paging.after (some ((streamOrders config.streamPrefix).cursor b))
              (matchingKeys config.streamPrefix s)
            = (streamOrders config.streamPrefix).behind b
              (Paging.after c (matchingKeys config.streamPrefix s)) := by
          have hlt : ∀ x ∈ c, x < (streamOrders config.streamPrefix).cursor b := fun x hx =>
            lt_of_lt_of_le ((Paging.mem_after.1 hk).2 x hx)
              (not_lt.1 (((streamOrders config.streamPrefix).cursor_lt hid hid).not.2 (lt_irrefl _)))
          rw [← Paging.after_after hlt]
          simp [TwoOrders.behind, Paging.after]
        have ih := followStreams_eq hs config limit calls
          (c := some ((streamOrders config.streamPrefix).cursor b)) (by rintro x ⟨⟩; exact cursor_ne b)
        rw [Option.getD_some] at ih
        dsimp only
        rw [Option.map_map, ← hrest, ← ih, Option.map_map, ← hpage]
        rfl
      · simp [hpage]

theorem hasStream_iff {id : String} : s.HasStream config id ↔
    id ∈ (streamOrders config.streamPrefix).ids (matchingKeys config.streamPrefix s) := by
  rw [TwoOrders.mem_ids]
  constructor
  · rintro ⟨key, hkey, hid⟩
    obtain ⟨-, r, hr⟩ := streamId?_eq hid
    exact ⟨key, mem_matchingKeys.2 ⟨hkey, startsWith_iff.2 ⟨_, hr⟩⟩, hid⟩
  · rintro ⟨key, hkey, hid⟩
    exact ⟨key, (mem_matchingKeys.1 hkey).1, hid⟩

theorem length_matchingKeys_le (s : IndexState) :
    (matchingKeys streamPrefix s).length ≤ s.manifests.size := by
  rw [matchingKeys, List.length_map, ← ExtTreeMap.length_toList]
  exact List.length_filter_le _ _

/-- Following `next_cursor` ends, on pages over the keys. -/
theorem exists_streamPages (hs : s.Keyed) (config : StreamingConfig) (hlimit : 1 ≤ limit) {calls : Nat}
    (hcalls : s.manifests.size < calls) :
    ∃ pages, followStreams config limit s calls "" = some pages ∧
      (streamOrders config.streamPrefix).pages streamWindow limit calls
        (matchingKeys config.streamPrefix s) = some (pages.map (List.map StreamListItem.streamId)) := by
  have heq := followStreams_eq hs config limit calls (c := none) nofun
  have hall : Paging.after none (matchingKeys config.streamPrefix s)
      = matchingKeys config.streamPrefix s := by simp [Paging.after]
  rw [hall] at heq
  obtain ⟨ps, hps⟩ : ∃ ps, (streamOrders config.streamPrefix).pages streamWindow limit calls
      (matchingKeys config.streamPrefix s) = some ps := TwoOrders.exists_pages
    hlimit (Nat.lt_of_le_of_lt (length_matchingKeys_le s) hcalls)
  rw [hps, Option.map_eq_some_iff] at heq
  obtain ⟨pages, hpages, rfl⟩ := heq
  exact ⟨pages, hpages, hps⟩

/-- **Following `next_cursor` ends, returns only streams, and returns each of them once if and only if**
in the order of their keys they fall into groups of `limit` that are fair: the last stream of a group
has a key among the first `streamWindow` ones behind the group before, the streams with a key among
these stand before it as ids if and only if they do by their keys, and the streams of the last group,
which is smaller, all have a key among as many. -/
theorem streams_once_iff (hs : s.Keyed) (config : StreamingConfig) (hlimit : 1 ≤ limit) {calls : Nat}
    (hcalls : s.manifests.size < calls) :
    ∃ pages, followStreams config limit s calls "" = some pages ∧
      let found := pages.flatten.map StreamListItem.streamId
      (∀ id ∈ found, s.HasStream config id) ∧
      ((∀ id, s.HasStream config id → found.count id = 1) ↔
        (streamOrders config.streamPrefix).Fair streamWindow limit
          (matchingKeys config.streamPrefix s)) := by
  obtain ⟨pages, hpages, hps⟩ := exists_streamPages hs config hlimit hcalls
  refine ⟨pages, hpages, fun id hid => ?_, ?_⟩
  · rw [List.map_flatten] at hid
    exact hasStream_iff.2 (TwoOrders.pages_ids hlimit hps id hid)
  · rw [← TwoOrders.once_iff hlimit (matchingKeys_sorted config.streamPrefix s) hps, TwoOrders.Once,
      List.map_flatten]
    simp only [hasStream_iff]

/-- Two streams, the first of which is continued by the second with `-`. -/
def dashed : World :=
  ((World.fresh ⟨1, 0, false⟩ "data" (Stream'.const .ok)).run .reference
    [.store "streams/a/v" [] "" [], .store "streams/a-b/v" [] "" []]).1

theorem streams_once_iff_dashed :
    ∃ pages, followStreams ⟨"streams/"⟩ 1 dashed.store.index 3 "" = some pages ∧
      let found := pages.flatten.map StreamListItem.streamId
      (∀ id ∈ found, dashed.store.index.HasStream ⟨"streams/"⟩ id) ∧
      ((∀ id, dashed.store.index.HasStream ⟨"streams/"⟩ id → found.count id = 1) ↔
        (streamOrders "streams/").Fair streamWindow 1 (matchingKeys "streams/" dashed.store.index)) := by
  obtain ⟨s, hsim, -⟩ := (Sim.fresh (by decide) "data").run_valid Crates.reference_lawful
    [.store "streams/a/v" [] "" [], .store "streams/a-b/v" [] "" []] (s := Spec.fresh ⟨1, 0, false⟩)
    ⟨fun key h => by simp [Spec.fresh] at h, fun handle u h => by simp [Spec.fresh] at h⟩
    (by simp [Call.Sized])
  exact streams_once_iff hsim.sound.keyed ⟨"streams/"⟩ (le_refl 1) (by decide +kernel)

/-- The cursor behind the first of the two streams lies behind the keys of the other one, which is
never returned. -/
theorem stream_skipped : dashed.Reachable .reference ∧
    dashed.store.index.HasStream ⟨"streams/"⟩ "a-b" ∧
    followStreams ⟨"streams/"⟩ 1 dashed.store.index 3 "" = some [[⟨"a", 1⟩], []] := by
  refine ⟨⟨⟨1, 0, false⟩, "data", _, by decide, ?_, rfl⟩, ⟨"streams/a-b/v", ?_⟩, ?_⟩
  · simp [Call.Sized]
  · decide +kernel
  · decide +kernel

end KaidaDB
