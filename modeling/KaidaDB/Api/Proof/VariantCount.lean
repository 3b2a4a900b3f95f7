import Mathlib.Data.Set.Card
import KaidaDB.Api.VariantCount
import KaidaDB.Lib.Separated
import KaidaDB.Api.Proof.LongStreams
import KaidaDB.Api.Proof.Streams

/-!
# What `variant_count` counts

The count of a stream is the number of its listed keys (`listStreams_count`), and the number of its
variants that of its init segments, listed or not (`ncard_variants`). So the two agree if and only if
the listed keys that are no init segments make up for the init segments that are not listed: for a call
that lists all keys of a stream, if it has no media segment.
-/

namespace KaidaDB

open Std (ExtTreeMap)

variable {config : StreamingConfig} {filter cursor streamId streamPrefix : String} {limit : Nat}
  {s : IndexState}

/-! ## The keys of a call -/

/-- The manifests that the engine lists are those of the listed keys. -/
theorem listPage_listedKeys (hs : s.Keyed) :
    (Index.listPage (if filter = "" then config.streamPrefix else config.streamPrefix ++ filter)
        streamWindow cursor s).1.map MediaManifest.key = listedKeys config filter cursor s := by
  generalize hscan : (if filter = "" then config.streamPrefix else config.streamPrefix ++ filter) = p
  have hlimit : ([] : List MediaManifest).length + (99999 + 1) = streamWindow := rfl
  rw [Index.listPage, listLoop_eq hlimit, listedKeys]
  dsimp only
  rw [hscan, List.nil_append, pageOf, Index.rangeFrom, List.filter_map, List.takeWhile_map,
    List.filter_map, ← List.map_take, List.map_map]
  refine List.map_congr_left fun e he => ?_
  have hfound := List.mem_of_mem_filter (List.mem_of_mem_take he)
  have hentry := List.mem_of_mem_filter ((List.takeWhile_sublist _).subset hfound)
  exact hs _ _ (ExtTreeMap.mem_toList_iff_getElem?_eq_some.1 hentry)

theorem listedKeys_sublist : (listedKeys config filter cursor s).Sublist s.keys :=
  (List.take_sublist _ _).trans
    (List.filter_sublist.trans ((List.takeWhile_sublist _).trans List.filter_sublist))

theorem nodup_keys (s : IndexState) : s.keys.Nodup :=
  List.pairwise_map.2 ((entries_sorted s).imp fun h => ne_of_lt h)

theorem mem_keys {key : String} : key ∈ s.keys ↔ (s.manifests[key]?).isSome := by
  rw [IndexState.keys, List.mem_map]
  constructor
  · rintro ⟨e, he, rfl⟩
    rw [ExtTreeMap.mem_toList_iff_getElem?_eq_some.1 he]
    rfl
  · intro hsome
    obtain ⟨m, hm⟩ := Option.isSome_iff_exists.1 hsome
    exact ⟨(key, m), ExtTreeMap.mem_toList_iff_getElem?_eq_some.2 hm, rfl⟩

/-! ## Counting keys -/

/-- The loop adds up the manifests of each stream. -/
theorem countStreams_getD (id : String) : ∀ (manifests : List MediaManifest)
    (streamIds : ExtTreeMap String Nat),
    (countStreams streamPrefix manifests streamIds).getD id 0
      = streamIds.getD id 0
        + (manifests.map MediaManifest.key).countP fun key => streamId? streamPrefix key = some id
  | [], streamIds => rfl
  | m :: manifests, streamIds => by
    rw [countStreams, List.map_cons, List.countP_cons]
    cases ht : streamId? streamPrefix m.key with
    | none =>
      dsimp only
      rw [countStreams_getD id manifests]
      simp
    | some t =>
      dsimp only
      rw [countStreams_getD id manifests, ExtTreeMap.getD_insert]
      by_cases heq : t = id
      · subst heq
        simp [Nat.add_assoc, Nat.add_comm 1]
      · have hcmp : compare t id ≠ .eq := fun h => heq (Std.LawfulEqCmp.eq_of_compare h)
        simp [heq]

/-- **The count of a returned stream** is the number of its listed keys. -/
theorem listStreams_count (hs : s.Keyed) {item : StreamListItem}
    (hitem : item ∈ (listStreams config filter limit cursor s).1) :
    '/' ∉ item.streamId.toList ∧ item.variantCount = (listedKeys config filter cursor s).countP
      fun key => streamId? config.streamPrefix key = some item.streamId := by
  rw [← listPage_listedKeys hs]
  simp only [listStreams] at hitem
  generalize hm : (Index.listPage (if filter = "" then config.streamPrefix
    else config.streamPrefix ++ filter) streamWindow cursor s).1 = manifests at hitem ⊢
  obtain ⟨p, hp, rfl⟩ := List.mem_map.1 hitem
  have hget := ExtTreeMap.mem_toList_iff_getElem?_eq_some.1 (List.mem_of_mem_take hp)
  constructor
  · have hsome := (countStreams_isSome p.1 manifests ∅).1 (by rw [hget]; rfl)
    rw [ExtTreeMap.getElem?_empty] at hsome
    obtain ⟨m, -, hid⟩ := hsome.resolve_left (by simp)
    exact (streamId?_eq hid).1
  · have hcount : (countStreams config.streamPrefix manifests ∅).getD p.1 0 = _ :=
      countStreams_getD p.1 manifests ∅
    rw [ExtTreeMap.getD_eq_getD_getElem?, hget] at hcount
    simpa using hcount

/-! ## Counting variants -/

theorem isInitOf_iff {key : String} : isInitOf config streamId key = true ↔
    ∃ v, '/' ∉ v.toList ∧ key = documentedInit config streamId v := by
  rw [isInitOf, Option.any_eq_true]
  constructor
  · rintro ⟨v, hv, hslash⟩
    exact ⟨v, by simpa using hslash, variantId?_iff.1 hv⟩
  · rintro ⟨v, hslash, hkey⟩
    exact ⟨v, variantId?_iff.2 hkey, by simpa using hslash⟩

theorem documentedInit_injective : Function.Injective (documentedInit config streamId) := by
  intro v v' h
  simp only [documentedInit, String.append_assoc] at h
  exact String.append_left_inj _ |>.1 (String.append_right_inj _ |>.1 h)

/-- The documented keys of a stream are among its keys. -/
theorem streamId?_documented {key : String} (hid : '/' ∉ streamId.toList)
    (h : startsWith key (documentedVariants config streamId) = true) :
    streamId? config.streamPrefix key = some streamId := by
  obtain ⟨r, hr⟩ := startsWith_iff.1 h
  have hkey : key.toList = config.streamPrefix.toList ++ (streamId.toList ++ '/' ::
      ("variants/".toList ++ r)) := by
    rw [hr]
    simp [documentedVariants]
  rw [streamId?, hkey, List.drop_left, if_pos ⟨startsWith_iff.2 ⟨_, hkey⟩, by simp⟩,
    Separated.takeWhile_append hid, String.ofList_toList]

/-- **The variants** are counted by their init segments. -/
theorem ncard_variants (s : IndexState) (streamId : String) :
    (s.variants config streamId).ncard = s.keys.countP (isInitOf config streamId) := by
  have himage : documentedInit config streamId '' s.variants config streamId
      = ((s.keys.filter (isInitOf config streamId)).toFinset : Set String) := by
    ext key
    simp only [Set.mem_image, List.coe_toFinset, Set.mem_ofPred_eq, List.mem_filter, mem_keys,
      isInitOf_iff]
    constructor
    · rintro ⟨v, ⟨hslash, hstored⟩, rfl⟩
      exact ⟨hstored, v, hslash, rfl⟩
    · rintro ⟨hstored, v, hslash, rfl⟩
      exact ⟨v, ⟨hslash, hstored⟩, rfl⟩
  rw [← Set.ncard_image_of_injective _ documentedInit_injective, himage, Set.ncard_coe_finset,
    List.toFinset_card_of_nodup ((nodup_keys s).filter _), List.countP_eq_length_filter]

theorem countP_split {listed keys : List String} (h : listed.Sublist keys) (hnodup : keys.Nodup)
    (f : String → Bool) :
    keys.countP f = listed.countP f + (keys.filter (· ∉ listed)).countP f := by
  have hperm : (keys.filter (· ∈ listed)).Perm listed := by
    refine (List.perm_ext_iff_of_nodup (hnodup.filter _) (hnodup.sublist h)).2 fun key => ?_
    have : key ∈ listed → key ∈ keys := fun hkey => h.subset hkey
    simpa using this
  rw [List.countP_eq_countP_filter_add keys f (· ∈ listed), hperm.countP_eq]
  simp

/-! ## Where they agree -/

theorem isInitOf_streamId? {key : String} (hid : '/' ∉ streamId.toList)
    (h : isInitOf config streamId key = true) : streamId? config.streamPrefix key = some streamId := by
  obtain ⟨v, -, rfl⟩ := isInitOf_iff.1 h
  exact streamId?_documented hid (startsWith_trans (startsWith_append _ _) (startsWith_append _ _))

/-- The listed keys of a stream are its init segments among them and the others. -/
theorem countP_listed (hid : '/' ∉ streamId.toList) (listed : List String) :
    (listed.countP fun key => streamId? config.streamPrefix key = some streamId)
      = listed.countP (isInitOf config streamId) + listed.countP fun key =>
        streamId? config.streamPrefix key = some streamId ∧ isInitOf config streamId key = false := by
  induction listed with
  | nil => rfl
  | cons key listed ih =>
    simp only [List.countP_cons, ih]
    have hinit := @isInitOf_streamId? config streamId key hid
    cases h : isInitOf config streamId key with
    | true =>
      simp [hinit h]
      omega
    | false =>
      simp
      omega

theorem variantCount_iff (hs : s.Keyed) {item : StreamListItem}
    (hitem : item ∈ (listStreams config filter limit cursor s).1) :
    item.variantCount = (s.variants config item.streamId).ncard ↔
      listedOthers config filter cursor s item.streamId
        = unlistedInits config filter cursor s item.streamId := by
  obtain ⟨hid, hcount⟩ := listStreams_count hs hitem
  have hsub : (listedKeys config filter cursor s).Sublist s.keys := listedKeys_sublist
  have hsplit := countP_split hsub (nodup_keys s) (isInitOf config item.streamId)
  have hlisted := @countP_listed config _ hid (listedKeys config filter cursor s)
  have hvariants := @ncard_variants config s item.streamId
  rw [IndexState.keys] at hsplit hvariants
  rw [hcount, listedOthers, unlistedInits]
  omega

/-- No key is that of an init segment and of a media segment. -/
theorem not_init_segment {key id v v' : String} (hv : '/' ∉ v.toList) (hv' : '/' ∉ v'.toList)
    (hinit : key = documentedInit config id v)
    (hsegment : startsWith key (documentedSegments config id v') = true) : False := by
  obtain ⟨r, hr⟩ := startsWith_iff.1 hsegment
  have heq : v.toList ++ '/' :: "init.mp4".toList = v'.toList ++ '/' :: ("seg-".toList ++ r) := by
    rw [hinit] at hr
    simp only [documentedInit, documentedSegments, String.toList_append, List.append_assoc] at hr
    simpa using List.append_cancel_left hr
  have hsame := congrArg (List.takeWhile (· ≠ '/')) heq
  rw [Separated.takeWhile_append hv, Separated.takeWhile_append hv'] at hsame
  rw [hsame] at heq
  simp at heq

/-- A call that lists all keys of a stream. -/
theorem variantCount_iff_of_all (hs : s.Keyed) (hlayout : s.LaidOut config) {item : StreamListItem}
    (hitem : item ∈ (listStreams config filter limit cursor s).1)
    (hall : ∀ key, (s.manifests[key]?).isSome →
      streamId? config.streamPrefix key = some item.streamId → key ∈ listedKeys config filter cursor s) :
    item.variantCount = (s.variants config item.streamId).ncard ↔
      ∀ v key, '/' ∉ v.toList → startsWith key (documentedSegments config item.streamId v) = true →
        s.manifests[key]? = none := by
  obtain ⟨hid, -⟩ := listStreams_count hs hitem
  have hunlisted : unlistedInits config filter cursor s item.streamId = 0 := by
    refine List.countP_eq_zero.2 fun key hkey hinit => ?_
    obtain ⟨hstored, hnot⟩ := List.mem_filter.1 hkey
    exact of_decide_eq_true hnot (hall key (mem_keys.1 hstored) (isInitOf_streamId? hid hinit))
  rw [variantCount_iff hs hitem, hunlisted, listedOthers, List.countP_eq_zero]
  simp only [decide_eq_true_eq, not_and, Bool.not_eq_false]
  constructor
  · intro h v key hv hsegment
    by_contra hstored
    have hstream := streamId?_documented hid (startsWith_trans hsegment
      (startsWith_trans (startsWith_append _ _) (startsWith_append _ _)))
    obtain ⟨v', hv', hinit⟩ := isInitOf_iff.1
      (h key (hall key (Option.isSome_iff_ne_none.2 hstored) hstream) hstream)
    exact not_init_segment hv' hv hinit hsegment
  · intro h key hkey hstream
    have hstored := mem_keys.1 (listedKeys_sublist.subset hkey)
    obtain ⟨-, r, hr⟩ := streamId?_eq hstream
    obtain ⟨id, v, hslash, hv, hform⟩ := hlayout key hstored (startsWith_iff.2 ⟨_, hr⟩)
    have hunder : startsWith key (documentedVariants config id) = true := by
      rcases hform with rfl | hsegment
      · exact startsWith_trans (startsWith_append _ _) (startsWith_append _ _)
      · exact startsWith_trans hsegment
          (startsWith_trans (startsWith_append _ _) (startsWith_append _ _))
    have hsame := streamId?_documented hslash hunder
    rw [hstream, Option.some.injEq] at hsame
    subst hsame
    rcases hform with rfl | hsegment
    · exact isInitOf_iff.2 ⟨v, hv, rfl⟩
    · rw [h v key hv hsegment] at hstored
      cases hstored

/-- **`variant_count` is the number of variants if and only if** the listed keys of the stream that are
no init segments are as many as its init segments that are not listed. If all its keys are listed: if
and only if it has no media segment. -/
theorem variant_count_iff (config : StreamingConfig) (hs : s.Keyed) (hlayout : s.LaidOut config)
    (filter : String) (limit : Nat) (cursor : String) :
    ∀ item ∈ (listStreams config filter limit cursor s).1,
      (item.variantCount = (s.variants config item.streamId).ncard ↔
        listedOthers config filter cursor s item.streamId
          = unlistedInits config filter cursor s item.streamId) ∧
      ((∀ key, (s.manifests[key]?).isSome →
          streamId? config.streamPrefix key = some item.streamId →
          key ∈ listedKeys config filter cursor s) →
        (item.variantCount = (s.variants config item.streamId).ncard ↔
          ∀ v key, '/' ∉ v.toList →
            startsWith key (documentedSegments config item.streamId v) = true →
            s.manifests[key]? = none)) :=
  fun _ hitem => ⟨variantCount_iff hs hitem, variantCount_iff_of_all hs hlayout hitem⟩

/-- The two segments of the stored variant. -/
theorem inception_laidOut : inception.store.index.LaidOut ⟨"streams/"⟩ := by
  intro key hstored _
  have hkeys : inception.store.index.keys = ["streams/inception/variants/1080p/init.mp4",
      "streams/inception/variants/1080p/seg-000000.m4s"] := by decide +kernel
  have hmem := mem_keys.2 hstored
  rw [hkeys] at hmem
  refine ⟨"inception", "1080p", by decide, by decide, ?_⟩
  rcases List.mem_cons.1 hmem with rfl | hmem
  · exact .inl (by decide +kernel)
  · obtain rfl := List.mem_singleton.1 hmem
    exact .inr (by decide +kernel)

theorem variant_count_iff_inception :
    ∃ item ∈ (listStreams ⟨"streams/"⟩ "" 100 "" inception.store.index).1,
      (item.variantCount = (inception.store.index.variants ⟨"streams/"⟩ item.streamId).ncard ↔
        listedOthers ⟨"streams/"⟩ "" "" inception.store.index item.streamId
          = unlistedInits ⟨"streams/"⟩ "" "" inception.store.index item.streamId) ∧
      ((∀ key, (inception.store.index.manifests[key]?).isSome →
          streamId? "streams/" key = some item.streamId →
          key ∈ listedKeys ⟨"streams/"⟩ "" "" inception.store.index) →
        (item.variantCount = (inception.store.index.variants ⟨"streams/"⟩ item.streamId).ncard ↔
          ∀ v key, '/' ∉ v.toList →
            startsWith key (documentedSegments ⟨"streams/"⟩ item.streamId v) = true →
            inception.store.index.manifests[key]? = none)) := by
  obtain ⟨spec, hsim⟩ := inception_reachable.sim Crates.reference_lawful
  have hitem : (⟨"inception", 2⟩ : StreamListItem) ∈
      (listStreams ⟨"streams/"⟩ "" 100 "" inception.store.index).1 := by decide +kernel
  exact ⟨_, hitem,
    variant_count_iff ⟨"streams/"⟩ hsim.sound.keyed inception_laidOut "" 100 "" _ hitem⟩

/-- One variant of one init segment and one media segment is listed as two variants. -/
theorem variant_count_counts_segments :
    ¬ ∀ (config : StreamingConfig) (w : World) (filter : String) (limit : Nat) (cursor : String),
      w.Reachable .reference → w.store.index.LaidOut config →
      ∀ item ∈ (listStreams config filter limit cursor w.store.index).1,
        item.variantCount = (w.store.index.variants config item.streamId).ncard := by
  intro h
  have hitem : (⟨"inception", 2⟩ : StreamListItem) ∈
      (listStreams ⟨"streams/"⟩ "" 100 "" inception.store.index).1 := by decide +kernel
  have hcount := h ⟨"streams/"⟩ inception "" 100 "" inception_reachable inception_laidOut _ hitem
  rw [ncard_variants] at hcount
  exact absurd hcount (by decide +kernel)

end KaidaDB
