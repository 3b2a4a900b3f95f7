import KaidaDB.Api.Discovery
import KaidaDB.Crates.Reference
import KaidaDB.Storage.Proof.Listing

/-!
# Discovery and the documented keys

By the documentation the variants of a stream are under `prefix id / variants/`; discovery looks under
`prefix id variants/`. Both extend `prefix id`, by different characters, so no documented key is ever
among those discovery asks for (`not_documented`).
-/

namespace KaidaDB

variable {F : Type} {ops : FloatOps F} {s : IndexState} {keyPrefix : String}

/-! ## What is found has the prefix -/

theorem startsWith_trans {a b c : String} (h1 : startsWith a b = true) (h2 : startsWith b c = true) :
    startsWith a c = true := by
  obtain ⟨r, hr⟩ := startsWith_iff.1 h1
  obtain ⟨t, ht⟩ := startsWith_iff.1 h2
  exact startsWith_iff.2 ⟨t ++ r, by rw [hr, ht, List.append_assoc]⟩

theorem startsWith_append (a b : String) : startsWith (a ++ b) a = true :=
  startsWith_iff.2 ⟨b.toList, String.toList_append⟩

/-- A listed manifest is that of a key with the prefix. -/
theorem mem_listPage (hs : s.Keyed) {limit : Nat} {m : MediaManifest}
    (hm : m ∈ (Index.listPage keyPrefix (limit + 1) "" s).1) : startsWith m.key keyPrefix = true := by
  have hpage : Index.listPage keyPrefix (limit + 1) ((none : Option String).getD "") s
      = pageOf limit _ := listPage_eq s (by simp) (by simp) limit
  rw [Option.getD_none] at hpage
  rw [hpage] at hm
  obtain ⟨p, hp, rfl⟩ := List.mem_map.1 hm
  obtain ⟨hmem, hpre⟩ := List.mem_filter.1 (List.mem_of_mem_filter (List.mem_of_mem_take hp))
  rw [hs _ _ (Std.ExtTreeMap.mem_toList_iff_getElem?_eq_some.1 hmem)]
  exact hpre

theorem variantId?_startsWith {key variantId : String} (h : variantId? keyPrefix key = some variantId) :
    startsWith key keyPrefix = true := by
  unfold variantId? stripPrefix? at h
  split_ifs at h with hends hstart
  · exact hstart
  · cases h

theorem collectVariants_startsWith {manifests : List MediaManifest} {seenVariants : List String}
    {info : VariantInfo} (h : info ∈ collectVariants keyPrefix manifests seenVariants) :
    startsWith info.initKey keyPrefix = true := by
  induction manifests generalizing seenVariants with
  | nil => cases h
  | cons manifest manifests ih =>
    rw [collectVariants] at h
    cases hid : variantId? keyPrefix manifest.key with
    | none =>
      rw [hid] at h
      exact ih h
    | some variantId =>
      rw [hid] at h
      dsimp only at h
      split_ifs at h with hseen
      · exact ih h
      · rcases List.mem_cons.1 h with rfl | h
        · exact variantId?_startsWith hid
        · exact ih h

theorem collectSegments_keys (manifests : List MediaManifest) (segments : List (SegmentInfo F)) :
    (collectSegments ops manifests segments).map SegmentInfo.key
      = segments.map SegmentInfo.key ++ manifests.map MediaManifest.key := by
  induction manifests generalizing segments with
  | nil => simp [collectSegments]
  | cons manifest manifests ih => simp [collectSegments, ih]

variable (config : StreamingConfig) (streamId variantId : String)

theorem discoverVariants_startsWith {info : VariantInfo}
    (h : info ∈ (discoverVariants config streamId s).1) :
    startsWith info.initKey (config.streamPrefix ++ streamId ++ "variants/") = true :=
  collectVariants_startsWith (List.mem_mergeSort.1 h)

theorem discoverSegments_startsWith (hs : s.Keyed) {segment : SegmentInfo F}
    (h : segment ∈ (discoverSegments ops config streamId variantId s).1) :
    startsWith segment.key (config.streamPrefix ++ streamId ++ "variants/") = true := by
  have hkey := List.mem_map_of_mem (f := SegmentInfo.key) (List.mem_mergeSort.1 h)
  rw [collectSegments_keys, List.map_nil, List.nil_append] at hkey
  obtain ⟨m, hm, hmkey⟩ := List.mem_map.1 hkey
  rw [← hmkey]
  exact startsWith_trans (mem_listPage hs hm)
    (startsWith_trans (startsWith_append _ _) (startsWith_append _ _))

/-! ## The documented keys -/

/-- What is asked for is not under the stream. -/
theorem not_documented {key : String}
    (h : startsWith key (config.streamPrefix ++ streamId ++ "variants/") = true) :
    startsWith key (deletedPrefix config streamId) = false := by
  rw [Bool.eq_false_iff]
  intro hunder
  obtain ⟨r, hr⟩ := startsWith_iff.1 h
  obtain ⟨t, ht⟩ := startsWith_iff.1 hunder
  simp only [deletedPrefix, String.toList_append, List.append_assoc] at hr ht
  have hrest := List.append_cancel_left (List.append_cancel_left (hr.symm.trans ht))
  cases List.cons.inj hrest |>.1

theorem documentedVariants_under :
    startsWith (documentedVariants config streamId) (deletedPrefix config streamId) = true := by
  have hsplit : documentedVariants config streamId = deletedPrefix config streamId ++ "variants/" := by
    rw [documentedVariants, deletedPrefix, String.append_assoc, String.append_assoc,
      String.append_assoc]
    rfl
  rw [hsplit]
  exact startsWith_append _ _

theorem documentedInit_under :
    startsWith (documentedInit config streamId variantId) (deletedPrefix config streamId) = true :=
  startsWith_trans (startsWith_append _ _)
    (startsWith_trans (startsWith_append _ _) (documentedVariants_under config streamId))

theorem documentedSegments_under :
    startsWith (documentedSegments config streamId variantId) (deletedPrefix config streamId) = true :=
  startsWith_trans (startsWith_append _ _)
    (startsWith_trans (startsWith_append _ _) (documentedVariants_under config streamId))

/-! ## What the documentation promises -/

section
variable (ops) (config : PlaylistConfig F) (streamId variantId : String) (s : IndexState)

/-- A variant with an init segment is found. -/
def FindsVariant : Prop :=
  (s.manifests[documentedInit config.toStreamingConfig streamId variantId]?).isSome →
    (∃ info ∈ (discoverVariants config.toStreamingConfig streamId s).1, info.variantId = variantId ∧
      info.initKey = documentedInit config.toStreamingConfig streamId variantId) ∧
    (getHlsMediaPlaylist ops config streamId variantId s).1 ≠ .notFound

/-- The segments of the variant are found. -/
def FindsSegments : Prop :=
  ∀ key, (s.manifests[key]?).isSome →
    startsWith key (documentedSegments config.toStreamingConfig streamId variantId) = true →
    ∃ segment ∈ (discoverSegments ops config.toStreamingConfig streamId variantId s).1,
      segment.key = key

/-- Only keys that `delete_stream` removes are asked for. -/
def AsksWithin : Prop :=
  ∀ asked ∈ (discoverVariants config.toStreamingConfig streamId s).2 ++
      (discoverSegments ops config.toStreamingConfig streamId variantId s).2 ++
      (getHlsMediaPlaylist ops config streamId variantId s).2,
    ∀ key, asked.Covers key → startsWith key (deletedPrefix config.toStreamingConfig streamId) = true

/-- Up to the 10000 keys that `discover_variants` lists, discovery follows the documentation. -/
def FollowsLayout : Prop :=
  ((matchingKeys (deletedPrefix config.toStreamingConfig streamId) s).length ≤ 10000 →
    FindsVariant ops config streamId variantId s ∧ FindsSegments ops config streamId variantId s) ∧
  AsksWithin ops config streamId variantId s

variable {s}

theorem findsVariant_iff : FindsVariant ops config streamId variantId s ↔
    s.manifests[documentedInit config.toStreamingConfig streamId variantId]? = none := by
  refine ⟨fun h => ?_, fun h hsome => ?_⟩
  · by_contra hne
    obtain ⟨⟨info, hinfo, -, hkey⟩, -⟩ := h (Option.isSome_iff_ne_none.2 hne)
    have hnot := not_documented _ _ (discoverVariants_startsWith _ _ hinfo)
    rw [hkey, documentedInit_under] at hnot
    cases hnot
  · rw [h] at hsome
    cases hsome

theorem findsSegments_iff (hs : s.Keyed) : FindsSegments ops config streamId variantId s ↔
    ∀ key, startsWith key (documentedSegments config.toStreamingConfig streamId variantId) = true →
      s.manifests[key]? = none := by
  refine ⟨fun h key hpre => ?_, fun h key hsome hpre => ?_⟩
  · by_contra hne
    obtain ⟨segment, hsegment, rfl⟩ := h key (Option.isSome_iff_ne_none.2 hne) hpre
    have hnot := not_documented _ _ (discoverSegments_startsWith _ _ variantId hs hsegment)
    rw [startsWith_trans hpre (documentedSegments_under _ _ _)] at hnot
    cases hnot
  · rw [h key hpre] at hsome
    cases hsome

/-- The init segment that `get_hls_media_playlist` looks up. -/
theorem asked_init : .key (config.streamPrefix ++ streamId ++ "variants/" ++ variantId ++ "/init.mp4")
    ∈ (getHlsMediaPlaylist ops config streamId variantId s).2 := by
  unfold getHlsMediaPlaylist
  dsimp only
  split_ifs
  · exact List.mem_cons_self
  · exact List.mem_cons_self

/-- What is asked for extends the stream's prefix by `variants/`. -/
theorem asked_startsWith {asked : Asked} {key : String}
    (hasked : asked ∈ (discoverVariants config.toStreamingConfig streamId s).2 ++
      (discoverSegments ops config.toStreamingConfig streamId variantId s).2 ++
      (getHlsMediaPlaylist ops config streamId variantId s).2) (hkey : asked.Covers key) :
    startsWith key (config.streamPrefix ++ streamId ++ "variants/") = true := by
  have hlonger : ∀ t, startsWith (config.streamPrefix ++ streamId ++ "variants/" ++ variantId ++ t)
      (config.streamPrefix ++ streamId ++ "variants/") = true := fun t =>
    startsWith_trans (startsWith_append _ _) (startsWith_append _ _)
  have hforms : asked = .keys (config.streamPrefix ++ streamId ++ "variants/") ∨
      asked = .keys (config.streamPrefix ++ streamId ++ "variants/" ++ variantId ++ "/seg-") ∨
      asked = .key (config.streamPrefix ++ streamId ++ "variants/" ++ variantId ++ "/init.mp4") := by
    unfold getHlsMediaPlaylist discoverVariants discoverSegments at hasked
    dsimp only at hasked
    split_ifs at hasked <;> simp at hasked <;> tauto
  rcases hforms with rfl | rfl | rfl
  · exact hkey
  · exact startsWith_trans hkey (hlonger _)
  · rw [show key = _ from hkey]
    exact hlonger _

theorem not_asksWithin : ¬ AsksWithin ops config streamId variantId s := by
  intro h
  have hasked := List.mem_append_right ((discoverVariants config.toStreamingConfig streamId s).2 ++
    (discoverSegments ops config.toStreamingConfig streamId variantId s).2)
    (asked_init ops config streamId variantId (s := s))
  have hunder := h _ hasked _ rfl
  rw [not_documented _ _ (asked_startsWith ops config streamId variantId hasked rfl)] at hunder
  cases hunder

/-- **Discovery never follows the documented layout**: no key it asks for is under the stream, and a
variant or a segment under its documented key is never found. -/
theorem discovery_leaves_layout (hs : s.Keyed) :
    ¬ FollowsLayout ops config streamId variantId s ∧
    (FindsVariant ops config streamId variantId s ↔
      s.manifests[documentedInit config.toStreamingConfig streamId variantId]? = none) ∧
    (FindsSegments ops config streamId variantId s ↔
      ∀ key, startsWith key (documentedSegments config.toStreamingConfig streamId variantId) = true →
        s.manifests[key]? = none) :=
  ⟨fun h => not_asksWithin ops config streamId variantId h.2,
    findsVariant_iff ops config streamId variantId, findsSegments_iff ops config streamId variantId hs⟩

end

/-- A stream stored under the documented keys. -/
def inception : World :=
  ((World.fresh ⟨1, 0, false⟩ "data" (Stream'.const .ok)).run .reference
    [.store "streams/inception/variants/1080p/init.mp4" [] "" [("bandwidth", "5000000")],
      .store "streams/inception/variants/1080p/seg-000000.m4s" [] "" []]).1

/-- Whole seconds. -/
def wholeSeconds : FloatOps Nat where
  parse s := Decimal.parse (2 ^ 53) s.toList
  four := 4
  ceilU64 n := n
  fixed3 n := toString n ++ ".000"

def defaultPlaylists : PlaylistConfig Nat := ⟨⟨"streams/"⟩, 4, "", true⟩

theorem inception_reachable : inception.Reachable .reference :=
  ⟨⟨1, 0, false⟩, "data", _, by decide, by simp [Call.Sized], rfl⟩

theorem discovery_leaves_layout_inception :
    ¬ FollowsLayout wholeSeconds defaultPlaylists "inception" "1080p" inception.store.index ∧
    (FindsVariant wholeSeconds defaultPlaylists "inception" "1080p" inception.store.index ↔
      inception.store.index.manifests[documentedInit ⟨"streams/"⟩ "inception" "1080p"]? = none) ∧
    (FindsSegments wholeSeconds defaultPlaylists "inception" "1080p" inception.store.index ↔
      ∀ key, startsWith key (documentedSegments ⟨"streams/"⟩ "inception" "1080p") = true →
        inception.store.index.manifests[key]? = none) := by
  obtain ⟨spec, hsim⟩ := inception_reachable.sim Crates.reference_lawful
  exact discovery_leaves_layout wholeSeconds defaultPlaylists "inception" "1080p" hsim.sound.keyed

/-- The variant is stored, and the media playlist is not found. -/
theorem documented_variant_missed :
    ¬ ∀ (F : Type) (ops : FloatOps F) (config : PlaylistConfig F) (streamId variantId : String)
      (w : World), w.Reachable .reference → endsWith config.streamPrefix "/" = true →
      FollowsLayout ops config streamId variantId w.store.index := by
  intro h
  have hfollows := h Nat wholeSeconds defaultPlaylists "inception" "1080p" inception
    inception_reachable (by decide)
  have hcount : (matchingKeys (deletedPrefix ⟨"streams/"⟩ "inception")
      inception.store.index).length ≤ 10000 := by decide +kernel
  obtain ⟨-, hfound⟩ := (hfollows.1 hcount).1 (by decide +kernel)
  exact hfound (by decide +kernel)

end KaidaDB
