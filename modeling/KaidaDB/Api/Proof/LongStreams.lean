import Mathlib.Data.List.Perm.Subperm
import Mathlib.Data.List.Sort
import KaidaDB.Api.LongStreams
import KaidaDB.Api.Proof.Discovery

/-!
# Discovery finds what is on its one page

Each of the two functions makes one call of the listing, so what it returns are the variants or segments
among the first keys with its prefix, each of them once and in order (`discoverVariants_keys`,
`discoverSegments_keys`). It finds all of them if and only if none is behind that page.
-/

namespace KaidaDB

variable {F : Type} {ops : FloatOps F} {config : StreamingConfig} {streamId variantId : String}
  {s : IndexState} {keyPrefix : String}

/-! ## Keys of init segments -/

theorem stripPrefix?_iff {key p r : String} : stripPrefix? key p = some r ↔ key = p ++ r := by
  rw [stripPrefix?]
  constructor
  · intro h
    split_ifs at h with hstart
    obtain ⟨t, ht⟩ := startsWith_iff.1 hstart
    cases h
    rw [← String.toList_inj, String.toList_append, String.toList_ofList, ht, List.drop_left]
  · rintro rfl
    rw [if_pos (startsWith_append p r), String.toList_append, List.drop_left, String.ofList_toList]

theorem endsWith_iff {key p : String} : endsWith key p = true ↔ ∃ r, key.toList = r ++ p.toList := by
  rw [endsWith, startsWith_iff]
  simp only [String.toList_ofList]
  constructor
  · rintro ⟨r, hr⟩
    exact ⟨r.reverse, by rw [← List.reverse_reverse key.toList, hr, List.reverse_append,
      List.reverse_reverse]⟩
  · rintro ⟨r, hr⟩
    exact ⟨r.reverse, by rw [hr, List.reverse_append]⟩

theorem stripSuffix?_iff {key p r : String} : stripSuffix? key p = some r ↔ key = r ++ p := by
  rw [stripSuffix?]
  constructor
  · intro h
    split_ifs at h with hend
    obtain ⟨t, ht⟩ := endsWith_iff.1 hend
    cases h
    rw [← String.toList_inj, String.toList_append, String.toList_ofList, ht, List.length_append,
      Nat.add_sub_cancel, List.take_left]
  · rintro rfl
    rw [if_pos (endsWith_iff.2 ⟨r.toList, String.toList_append⟩), String.toList_append,
      List.length_append, Nat.add_sub_cancel, List.take_left, String.ofList_toList]

/-- Exactly the keys of the form name a variant. -/
theorem variantId?_iff {key v : String} :
    variantId? keyPrefix key = some v ↔ key = keyPrefix ++ v ++ "/init.mp4" := by
  rw [variantId?]
  constructor
  · intro h
    split_ifs at h
    obtain ⟨r, hr, hv⟩ := Option.bind_eq_some_iff.1 h
    rw [stripPrefix?_iff.1 hr, stripSuffix?_iff.1 hv, String.append_assoc]
  · rintro rfl
    have hend : endsWith (keyPrefix ++ v ++ "/init.mp4") "/init.mp4" = true :=
      endsWith_iff.2 ⟨_, String.toList_append⟩
    rw [if_pos hend, String.append_assoc, stripPrefix?_iff.2 rfl, Option.bind_some]
    exact stripSuffix?_iff.2 rfl

/-! ## Variants -/

/-- Keys that are all different name different variants, so none of them is passed over. -/
theorem collectVariants_eq : ∀ {manifests : List MediaManifest} {seenVariants : List String},
    (manifests.map MediaManifest.key).Nodup →
    (∀ v ∈ seenVariants, keyPrefix ++ v ++ "/init.mp4" ∉ manifests.map MediaManifest.key) →
    collectVariants keyPrefix manifests seenVariants
      = manifests.filterMap fun m => (variantId? keyPrefix m.key).map (variantInfo · m)
  | [], _, _, _ => rfl
  | m :: manifests, seenVariants, hnodup, hseen => by
    obtain ⟨hm, hrest⟩ := List.nodup_cons.1 hnodup
    have hseen' : ∀ v ∈ seenVariants,
        keyPrefix ++ v ++ "/init.mp4" ∉ manifests.map MediaManifest.key := fun v hv h =>
      hseen v hv (List.mem_cons_of_mem _ h)
    rw [collectVariants]
    cases hid : variantId? keyPrefix m.key with
    | none =>
      rw [List.filterMap_cons_none (by rw [hid]; rfl)]
      exact collectVariants_eq hrest hseen'
    | some v =>
      have hkey := variantId?_iff.1 hid
      have hnew : v ∉ seenVariants := fun hv => hseen v hv (by rw [← hkey]; exact List.mem_cons_self)
      rw [List.filterMap_cons_some (by rw [hid]; rfl)]
      dsimp only
      rw [if_neg hnew, collectVariants_eq hrest fun u hu => ?_]
      rcases List.mem_cons.1 hu with rfl | hu
      · rwa [← hkey]
      · exact hseen' u hu

/-- The variants of manifests under different keys. -/
theorem collectVariants_nil {manifests : List MediaManifest}
    (h : (manifests.map MediaManifest.key).Nodup) : collectVariants keyPrefix manifests []
      = manifests.filterMap fun m => (variantId? keyPrefix m.key).map (variantInfo · m) :=
  collectVariants_eq h fun _ hv => by cases hv

/-- The manifests of the one page. -/
theorem listPage_keys (hs : s.Keyed) (keyPrefix : String) (n : Nat) :
    (Index.listPage keyPrefix (n + 1) "" s).1.map MediaManifest.key
      = (matchingKeys keyPrefix s).take (n + 1) :=
  (listPage_first (c := none) n hs (by simp) (by simp) (by simp)).1

theorem nodup_matchingKeys (keyPrefix : String) (s : IndexState) :
    (matchingKeys keyPrefix s).Nodup :=
  (matchingKeys_sorted keyPrefix s).imp fun h => ne_of_lt h

theorem initKeys_eq (manifests : List MediaManifest) :
    (manifests.filterMap fun m => (variantId? keyPrefix m.key).map (variantInfo · m)).map
      VariantInfo.initKey
      = (manifests.map MediaManifest.key).filter fun key => (variantId? keyPrefix key).isSome := by
  induction manifests with
  | nil => rfl
  | cons m manifests ih =>
    rw [List.filterMap_cons, List.map_cons, List.filter_cons, ← ih]
    cases variantId? keyPrefix m.key <;> rfl

/-- **The variants found** are those of the first 10000 keys with the prefix. -/
theorem discoverVariants_keys (hs : s.Keyed) :
    ((discoverVariants config streamId s).1.map VariantInfo.initKey).Perm
      (((matchingKeys (variantsPrefix config streamId) s).take 10000).filter fun key =>
        (variantId? (variantsPrefix config streamId) key).isSome) := by
  have hkeys := listPage_keys hs (variantsPrefix config streamId) 9999
  have hnodup := (nodup_matchingKeys (variantsPrefix config streamId) s).sublist
    (List.take_sublist 10000 _)
  rw [← hkeys] at hnodup ⊢
  rw [← initKeys_eq, ← collectVariants_nil hnodup]
  exact (List.mergeSort_perm _ _).map _

/-- A variant found is the one its key names. -/
theorem discoverVariants_named (hs : s.Keyed) {info : VariantInfo}
    (h : info ∈ (discoverVariants config streamId s).1) :
    info.initKey = initKey config streamId info.variantId := by
  have hnodup := (nodup_matchingKeys (variantsPrefix config streamId) s).sublist
    (List.take_sublist 10000 _)
  rw [← listPage_keys hs (variantsPrefix config streamId) 9999] at hnodup
  have h := List.mem_mergeSort.1 h
  rw [show config.streamPrefix ++ streamId ++ "variants/" = variantsPrefix config streamId from rfl,
    collectVariants_nil hnodup] at h
  obtain ⟨m, -, hm⟩ := List.mem_filterMap.1 h
  obtain ⟨v, hv, rfl⟩ := Option.map_eq_some_iff.1 hm
  exact variantId?_iff.1 hv

theorem count_eq_one_iff {α : Type} [DecidableEq α] {l : List α} (h : l.Nodup) {a : α} :
    l.count a = 1 ↔ a ∈ l :=
  ⟨fun hcount => List.count_pos_iff.1 (by omega), List.count_eq_one_of_mem h⟩

/-- **All variants are found** if and only if the init segments are among the first 10000 keys. -/
theorem findsVariants_iff (hs : s.Keyed) : FindsVariants config streamId s ↔
    ∀ v, (s.manifests[initKey config streamId v]?).isSome →
      initKey config streamId v ∈ (matchingKeys (variantsPrefix config streamId) s).take 10000 := by
  have hperm : ((discoverVariants config streamId s).1.map VariantInfo.initKey).Perm _ :=
    discoverVariants_keys hs
  have hnodup := hperm.nodup_iff.2 (((nodup_matchingKeys _ s).sublist (List.take_sublist 10000 _)).filter _)
  have hfound : ∀ v, initKey config streamId v ∈
      (discoverVariants config streamId s).1.map VariantInfo.initKey ↔
      initKey config streamId v ∈ (matchingKeys (variantsPrefix config streamId) s).take 10000 := by
    intro v
    rw [hperm.mem_iff, List.mem_filter, variantId?_iff.2 (show initKey config streamId v = _ from rfl)]
    simp
  constructor
  · intro h v hv
    exact (hfound v).1 ((count_eq_one_iff hnodup).1 (h.once v hv))
  · intro h
    refine ⟨fun v hv => (count_eq_one_iff hnodup).2 ((hfound v).2 (h v hv)), fun info hinfo => ?_, ?_⟩
    · refine ⟨discoverVariants_named hs hinfo, ?_⟩
      have hmem := hperm.mem_iff.1 (List.mem_map_of_mem hinfo)
      exact (mem_matchingKeys.1 (List.mem_of_mem_take (List.mem_of_mem_filter hmem))).1
    · exact List.pairwise_mergeSort' (Order.Preimage VariantInfo.bandwidth (· ≥ ·)) _

/-! ## Segments -/

/-- **The segments found** are the first 100000 keys with the prefix. -/
theorem discoverSegments_keys (hs : s.Keyed) :
    ((discoverSegments ops config streamId variantId s).1.map SegmentInfo.key).Perm
      ((matchingKeys (segmentsPrefix config streamId variantId) s).take 100000) := by
  have hkeys := listPage_keys hs (segmentsPrefix config streamId variantId) 99999
  have hcollect : (collectSegments ops
      (Index.listPage (segmentsPrefix config streamId variantId) 100000 "" s).1 []).map SegmentInfo.key
      = _ := collectSegments_keys _ []
  rw [← hkeys]
  rw [List.map_nil, List.nil_append] at hcollect
  rw [← hcollect]
  exact (List.mergeSort_perm _ _).map _

/-- **All segments are found** if and only if there are at most 100000. -/
theorem findsAllSegments_iff (hs : s.Keyed) : FindsAllSegments ops config streamId variantId s ↔
    (matchingKeys (segmentsPrefix config streamId variantId) s).length ≤ 100000 := by
  have hperm : ((discoverSegments ops config streamId variantId s).1.map SegmentInfo.key).Perm _ :=
    discoverSegments_keys hs
  have hsorted := nodup_matchingKeys (segmentsPrefix config streamId variantId) s
  have hnodup := hperm.nodup_iff.2 (hsorted.sublist (List.take_sublist 100000 _))
  constructor
  · intro h
    by_contra hlong
    -- the key behind the page is stored and not found
    have hlt : 100000 < (matchingKeys (segmentsPrefix config streamId variantId) s).length := by omega
    have hstored := mem_matchingKeys.1 (List.getElem_mem hlt)
    have hmem := hperm.mem_iff.1 ((count_eq_one_iff hnodup).1 (h.once _ hstored.1 hstored.2))
    obtain ⟨i, hi, heq⟩ := List.mem_take_iff_getElem.1 hmem
    have := (List.Nodup.getElem_inj_iff hsorted).1 heq
    omega
  · intro hshort
    rw [List.take_of_length_le hshort] at hperm
    refine ⟨fun key hkey hstart => (count_eq_one_iff hnodup).2 ?_, fun segment hseg => ?_, ?_⟩
    · exact hperm.mem_iff.2 (mem_matchingKeys.2 ⟨hkey, hstart⟩)
    · exact (mem_matchingKeys.1 (hperm.mem_iff.1 (List.mem_map_of_mem hseg))).symm
    · exact List.pairwise_mergeSort' (Order.Preimage SegmentInfo.index (· ≤ ·)) _

/-- **Discovery is complete** if and only if no init segment is behind the first 10000 keys of the
stream's variants and the variant has at most 100000 segments. -/
theorem discovery_complete_iff (ops : FloatOps F) (config : StreamingConfig)
    (streamId variantId : String) (hs : s.Keyed) :
    FindsVariants config streamId s ∧ FindsAllSegments ops config streamId variantId s ↔
      (∀ v, (s.manifests[initKey config streamId v]?).isSome → initKey config streamId v ∈
        (matchingKeys (variantsPrefix config streamId) s).take 10000) ∧
      (matchingKeys (segmentsPrefix config streamId variantId) s).length ≤ 100000 :=
  and_congr (findsVariants_iff hs) (findsAllSegments_iff hs)

theorem discovery_complete_iff_inception :
    FindsVariants ⟨"streams/"⟩ "inception/" inception.store.index ∧
      FindsAllSegments wholeSeconds ⟨"streams/"⟩ "inception/" "1080p" inception.store.index ↔
      (∀ v, (inception.store.index.manifests[initKey ⟨"streams/"⟩ "inception/" v]?).isSome →
        initKey ⟨"streams/"⟩ "inception/" v ∈
          (matchingKeys (variantsPrefix ⟨"streams/"⟩ "inception/") inception.store.index).take 10000) ∧
      (matchingKeys (segmentsPrefix ⟨"streams/"⟩ "inception/" "1080p")
        inception.store.index).length ≤ 100000 := by
  obtain ⟨spec, hsim⟩ := inception_reachable.sim Crates.reference_lawful
  exact discovery_complete_iff wholeSeconds ⟨"streams/"⟩ "inception/" "1080p" hsim.sound.keyed

/-! ## A long stream -/

/-- The manifest of an empty object. -/
def bareManifest (key : String) : MediaManifest := ⟨key, [], 0, 1, "", "", [], 0, 0⟩

def talkSegment (i : Nat) : String := "streams/talk/variants/1080p/seg-" ++ toString i

/-- A stream with 10000 segments in the first of its two variants. -/
def longTalk : IndexState :=
  replayLog (((List.range 10000).map talkSegment ++ [initKey ⟨"streams/"⟩ "talk/" "720p"]).map
    fun key => .putManifest (bareManifest key))

/-- The keys of manifests that were put. -/
theorem stored_of_put (keys : List String) (key : String) : ∀ (idx : IndexState),
    ((Replay.replay applyEntry idx (keys.map fun k => .putManifest (bareManifest k))).manifests[key]?).isSome
      ↔ key ∈ keys ∨ (idx.manifests[key]?).isSome := by
  induction keys with
  | nil => simp [Replay.replay]
  | cons k keys ih =>
    intro idx
    rw [List.map_cons, Replay.replay_cons, ih, List.mem_cons]
    simp only [applyEntry, bareManifest, FinMap.get_insert]
    by_cases hk : k = key
    · simp [hk]
    · simp [hk, Ne.symm hk]

theorem numbered_injective (p : String) : Function.Injective fun i : Nat => p ++ toString i := by
  intro i j h
  have hread : ∀ k : Nat, Nat.ofDigitChars 10 (toString k).toList 0 = k := by
    intro k
    rw [Nat.toString_eq_repr, Nat.toList_repr, Nat.ofDigitChars_toDigits (by decide) (by decide)]
  have h := congrArg String.toList h
  simp only [String.toList_append, List.append_cancel_left_eq] at h
  rw [← hread i, h, hread j]

theorem talkSegment_lt (i : Nat) : talkSegment i < initKey ⟨"streams/"⟩ "talk/" "720p" := by
  have hlit : "streams/talk/variants/1080p/seg-".toList
      = "streams/talk/variants/".toList ++ '1' :: "080p/seg-".toList := by decide
  have hseg : (talkSegment i).toList = "streams/talk/variants/".toList
      ++ '1' :: ("080p/seg-".toList ++ (toString i).toList) :=
    calc (talkSegment i).toList
        = "streams/talk/variants/1080p/seg-".toList ++ (toString i).toList := String.toList_append
      _ = ("streams/talk/variants/".toList ++ '1' :: "080p/seg-".toList) ++ (toString i).toList :=
        congrArg (· ++ _) hlit
      _ = _ := by rw [List.append_assoc, List.cons_append]
  have hinit : (initKey ⟨"streams/"⟩ "talk/" "720p").toList = "streams/talk/variants/".toList
      ++ '7' :: "20p/init.mp4".toList := by decide +kernel
  rw [String.lt_iff_toList_lt, hseg, hinit, LexOrder.append_lt_append_iff]
  exact List.Lex.rel (by decide)

/-- An element of the first `n` has fewer than `n` before it. -/
theorem length_before_lt {l : List String} (hl : l.Pairwise (· < ·)) {n : Nat} {a : String}
    (ha : a ∈ l.take n) : (l.filter (· < a)).length < n := by
  have hrest : (l.drop n).filter (· < a) = [] := List.filter_eq_nil_iff.2 fun b hb => by
    rw [← List.take_append_drop n l] at hl
    simpa only [decide_eq_true_eq, not_lt] using le_of_lt ((List.pairwise_append.1 hl).2.2 a ha b hb)
  have hlt : ((l.take n).filter (· < a)).length < (l.take n).length :=
    List.length_filter_lt_length_iff_exists.2 ⟨a, ha, by simp⟩
  calc (l.filter (· < a)).length
      = ((l.take n).filter (· < a)).length := by
        conv_lhs => rw [← List.take_append_drop n l, List.filter_append, hrest, List.append_nil]
    _ < (l.take n).length := hlt
    _ ≤ n := List.length_take_le n l

/-- The second variant is stored, and not found. -/
theorem longTalk_variant_missed : ¬ ∀ (F : Type) (ops : FloatOps F) (config : StreamingConfig)
    (streamId variantId : String) (s : IndexState), s.Keyed →
    FindsVariants config streamId s ∧ FindsAllSegments ops config streamId variantId s := by
  intro h
  have hall := (findsVariants_iff (replayLog_keyed _)).1
    (h Nat wholeSeconds ⟨"streams/"⟩ "talk/" "720p" longTalk (replayLog_keyed _)).1
  have hmem := hall "720p" ((stored_of_put _ _ _).2 (.inl (by simp)))
  -- the 10000 segments of the other variant all come before it
  let keys := matchingKeys (variantsPrefix ⟨"streams/"⟩ "talk/") longTalk
  have hsegments : ((List.range 10000).map talkSegment).Nodup :=
    List.nodup_range.map (numbered_injective _)
  have hsub : (List.range 10000).map talkSegment ⊆
      keys.filter (· < initKey ⟨"streams/"⟩ "talk/" "720p") := by
    intro key hkey
    obtain ⟨i, -, rfl⟩ := List.mem_map.1 hkey
    refine List.mem_filter.2 ⟨mem_matchingKeys.2 ⟨?_, ?_⟩, decide_eq_true (talkSegment_lt i)⟩
    · exact (stored_of_put _ _ _).2 (.inl (List.mem_append_left _ hkey))
    · exact startsWith_trans (startsWith_append _ _) (by decide)
  have hmany := (hsegments.subperm hsub).length_le
  rw [List.length_map, List.length_range] at hmany
  exact absurd (length_before_lt (matchingKeys_sorted _ _) hmem) (not_lt.2 hmany)

end KaidaDB
