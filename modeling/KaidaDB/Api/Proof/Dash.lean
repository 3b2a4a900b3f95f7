import Mathlib.Data.List.TakeWhile
import KaidaDB.Api.Dash
import KaidaDB.Api.Proof.LongStreams

/-!
# What the manifest addresses

The template is made from the key of the first segment: what is before its number, and its extension
(`segmentMediaTemplate_eq`). A player that expands it gets the text around the number back, unless the
format of the number is in there too (`expand_media`). So the URLs are those of the segments if and only if
the names are numbered that way; for segments of different durations there is no URL at all.
-/

namespace KaidaDB

open Replace

/-! ## The text of the template -/

theorem mediaUrl_append (baseUrl a b : String) :
    mediaUrl baseUrl (a ++ b) = mediaUrl baseUrl a ++ b := by
  rw [mediaUrl, mediaUrl]
  split_ifs
  · exact String.append_assoc.symm
  · exact String.append_assoc.symm

theorem mediaUrl_injective (baseUrl : String) : Function.Injective (mediaUrl baseUrl) := by
  intro a b h
  have hnil : ∀ x, (mediaUrl baseUrl x).toList = (mediaUrl baseUrl "").toList ++ x.toList := by
    intro x
    rw [← String.toList_append, ← mediaUrl_append, String.empty_append]
  have h := congrArg String.toList h
  rwa [hnil, hnil b, List.append_cancel_left_eq, String.toList_inj] at h

theorem mediaUrl_ne_empty (baseUrl key : String) : mediaUrl baseUrl key ≠ "" := by
  intro h
  rw [mediaUrl] at h
  split_ifs at h <;> simp [toString, String.append_eq_empty_iff] at h

/-- The text after the last dot. -/
theorem extension_append {a e : List Char} (he : '.' ∉ e) :
    extension (String.ofList (a ++ '.' :: e)) = String.ofList e := by
  rw [extension, String.toList_ofList, List.reverse_append, List.reverse_cons, List.append_assoc,
    List.takeWhile_append_of_pos (by simpa using fun c hc (h : c = '.') => he (h ▸ hc))]
  simp

theorem dot_not_mem_extension (key : String) : '.' ∉ (extension key).toList := by
  intro h
  rw [extension, String.toList_ofList, List.mem_reverse] at h
  simpa using List.mem_takeWhile_imp h

/-- What the template is made of. -/
theorem segmentMediaTemplate_eq {F : Type} {first : SegmentInfo F} {rest : List (SegmentInfo F)}
    {path tail : String} (hkey : first.key = path ++ "/seg-" ++ tail)
    (hlast : ¬ "/seg-".toList <:+: tail.toList) (baseUrl : String) :
    segmentMediaTemplate (first :: rest) baseUrl
      = mediaUrl baseUrl (path ++ "/seg-") ++ numberFormat ++ "." ++ extension first.key := by
  have hlist : first.key.toList = path.toList ++ ("/seg-".toList ++ tail.toList) := by
    rw [hkey, String.toList_append, String.toList_append, List.append_assoc]
  have hafter : ¬ '/' :: "seg-".toList <:+: "seg-".toList ++ tail.toList := fun h =>
    hlast (cons_infix_append (by decide) h)
  have hpos : rfind? "/seg-".toList first.key.toList = some path.toList.length := by
    rw [hlist]
    exact rfind?_append hafter
  have htake : first.key.toList.take (path.toList.length + 5) = path.toList ++ "/seg-".toList := by
    rw [hlist, ← List.append_assoc]
    exact List.take_left' (by rw [List.length_append]; rfl)
  rw [segmentMediaTemplate, hpos]
  dsimp only
  rw [htake, String.ofList_append, String.ofList_toList, String.ofList_toList, mediaUrl_append,
    mediaUrl_append, mediaUrl_append]

/-- In the text before the number and in the extension, numbers are put on their own. -/
theorem expand_media (number : Nat) (baseUrl path ext : String) :
    replaceAll numberFormat.toList (paddedNumber number)
        (mediaUrl baseUrl (path ++ "/seg-") ++ numberFormat ++ "." ++ ext).toList
      = replaceAll numberFormat.toList (paddedNumber number) (mediaUrl baseUrl (path ++ "/seg")).toList
        ++ '-' :: (paddedNumber number
          ++ '.' :: replaceAll numberFormat.toList (paddedNumber number) ext.toList) := by
  have hne : numberFormat.toList ≠ [] := by decide
  have hurl : (mediaUrl baseUrl (path ++ "/seg-")).toList
      = (mediaUrl baseUrl (path ++ "/seg")).toList ++ ['-'] := by
    have hlit : "/seg-" = "/seg" ++ "-" := by decide
    rw [hlit, ← String.append_assoc, mediaUrl_append, String.toList_append]
    rfl
  have hmedia : (mediaUrl baseUrl (path ++ "/seg-") ++ numberFormat ++ "." ++ ext).toList
      = (mediaUrl baseUrl (path ++ "/seg")).toList ++ '-' :: (numberFormat.toList ++ '.' :: ext.toList) := by
    rw [String.toList_append, String.toList_append, String.toList_append, hurl]
    simp
  have hext : replaceAll numberFormat.toList (paddedNumber number) ('.' :: ext.toList)
      = '.' :: replaceAll numberFormat.toList (paddedNumber number) ext.toList :=
    replaceAll_append_cons (a := []) hne (by decide)
  rw [hmedia, replaceAll_append_cons hne (by decide), replaceAll_append hne, hext]

theorem segment_url (baseUrl path tail : String) :
    (mediaUrl baseUrl (path ++ "/seg-" ++ tail)).toList
      = (mediaUrl baseUrl (path ++ "/seg")).toList ++ '-' :: tail.toList := by
  have hlit : "/seg-" = "/seg" ++ "-" := by decide
  rw [hlit, ← String.append_assoc, String.append_assoc, mediaUrl_append, String.toList_append]
  simp

theorem toList_numbered (number : List Char) (ext : String) :
    (String.ofList number ++ "." ++ ext).toList = number ++ '.' :: ext.toList := by
  rw [String.toList_append, String.toList_append, String.toList_ofList, List.append_assoc]
  rfl

/-! ## The template of a variant -/

theorem allUniform_iff (segments : List (SegmentInfo ℚ)) :
    allUniform segments = true ↔ UniformDurations segments := by
  rw [UniformDurations]
  induction segments with
  | nil => simp [allUniform]
  | cons a segments ih =>
    cases segments with
    | nil => simp [allUniform]
    | cons b segments =>
      rw [List.isChain_cons_cons, ← ih]
      cases segments with
      | nil => simp [allUniform]
      | cons c segments => simp [allUniform]

section
variable {baseUrl initKey : String} {first : SegmentInfo ℚ} {rest : List (SegmentInfo ℚ)}

/-- Segments of different durations have no URLs. -/
theorem uniform_of_addresses
    (h : (dashSegmentTemplate initKey baseUrl (first :: rest)).Addresses baseUrl (first :: rest)) :
    UniformDurations (first :: rest) := by
  rw [← allUniform_iff]
  by_contra hnot
  have hurl := h 0 first rfl
  rw [dashSegmentTemplate, if_neg hnot] at hurl
  cases hurl

/-- With equal durations the URLs are those that the media template expands to. -/
theorem addresses_uniform (hall : UniformDurations (first :: rest)) :
    (dashSegmentTemplate initKey baseUrl (first :: rest)).Addresses baseUrl (first :: rest) ↔
      ∀ i segment, (first :: rest)[i]? = some segment →
        replaceAll numberFormat.toList (paddedNumber i)
          (segmentMediaTemplate (first :: rest) baseUrl).toList = (mediaUrl baseUrl segment.key).toList := by
  rw [SegmentTemplate.Addresses, dashSegmentTemplate, if_pos ((allUniform_iff _).2 hall)]
  simp only [SegmentTemplate.url, Option.some.injEq, ← String.toList_inj, String.toList_ofList,
    Nat.zero_add]

/-- The template addresses segments that are numbered. -/
theorem addresses_of_numbered {path ext : String}
    (h : Numbered baseUrl (first :: rest) path ext) (i : Nat) {segment : SegmentInfo ℚ}
    (hsegment : (first :: rest)[i]? = some segment) :
    replaceAll numberFormat.toList (paddedNumber i)
      (segmentMediaTemplate (first :: rest) baseUrl).toList = (mediaUrl baseUrl segment.key).toList := by
  have hkey : ∀ j segment, (first :: rest)[j]? = some segment →
      segment.key = path ++ "/seg-" ++ (String.ofList (paddedNumber j) ++ "." ++ ext) :=
    fun j segment hj => by rw [h.keys j segment hj]; simp only [String.append_assoc]
  have hfirst := hkey 0 first rfl
  have hlast : ¬ "/seg-".toList <:+: (String.ofList (paddedNumber 0) ++ "." ++ ext).toList := by
    rw [toList_numbered, infix_append_cons (by decide) (by decide), not_or]
    exact ⟨by decide, h.last⟩
  have hext : extension first.key = ext := by
    have hdot := extension_append (a := (path ++ "/seg-" ++ String.ofList (paddedNumber 0)).toList) h.dot
    rw [String.ofList_toList] at hdot
    rw [← hdot, h.keys 0 first rfl, ← String.ofList_toList (s := _ ++ ext), String.toList_append,
      String.toList_append, List.append_assoc]
    rfl
  have hurl : ¬ numberFormat.toList <:+: (mediaUrl baseUrl (path ++ "/seg")).toList := by
    rw [mediaUrl_append, String.toList_append]
    intro hin
    rcases (infix_append_cons (by decide) (by decide)).1 hin with hin | hin
    · exact h.plainUrl hin
    · exact absurd hin (by decide)
  rw [segmentMediaTemplate_eq hfirst hlast, hext, expand_media, replaceAll_eq_self hurl,
    replaceAll_eq_self h.plainExt, hkey i segment hsegment, segment_url, toList_numbered]

/-- The extension of a first key that the template gives back is not changed by the number. -/
theorem first_extension {key path : String} {b : List Char}
    (hkey : key = path ++ "/seg-" ++ String.ofList b)
    (hb : b = paddedNumber 0
      ++ '.' :: replaceAll numberFormat.toList (paddedNumber 0) (extension key).toList) :
    b = paddedNumber 0 ++ '.' :: (extension key).toList ∧
    replaceAll numberFormat.toList (paddedNumber 0) (extension key).toList = (extension key).toList := by
  have hdot : '.' ∉ replaceAll numberFormat.toList (paddedNumber 0) (extension key).toList := by
    intro hin
    rcases mem_replaceAll hin with hin | hin
    · exact absurd hin (by decide)
    · exact dot_not_mem_extension key hin
  have hext := extension_append (a := (path ++ "/seg-").toList ++ paddedNumber 0) hdot
  rw [List.append_assoc, ← hb, String.ofList_append, String.ofList_toList, ← hkey,
    ← String.toList_inj, String.toList_ofList] at hext
  exact ⟨hext ▸ hb, hext.symm⟩

/-- What the template addresses is numbered. -/
theorem numbered_of_addresses
    (h : ∀ i segment, (first :: rest)[i]? = some segment →
      replaceAll numberFormat.toList (paddedNumber i)
        (segmentMediaTemplate (first :: rest) baseUrl).toList = (mediaUrl baseUrl segment.key).toList) :
    ∃ path ext, Numbered baseUrl (first :: rest) path ext := by
  have hzero : paddedNumber 0 = '0' :: ['0', '0', '0', '0', '0'] := by decide
  have hformat : numberFormat.toList = '$' :: "Number%06d$".toList := by decide
  cases hpos : rfind? "/seg-".toList first.key.toList with
  | none =>
    -- no template at all
    have hurl := h 0 first rfl
    rw [segmentMediaTemplate, hpos] at hurl
    have hempty : "".toList = (mediaUrl baseUrl first.key).toList := hurl
    exact absurd (String.toList_inj.1 hempty).symm (mediaUrl_ne_empty _ _)
  | some segPos =>
    obtain ⟨a, b, hl, -, hb⟩ := rfind?_eq_some (by decide) hpos
    have hpath : (String.ofList a).toList = a := String.toList_ofList
    have htext : (String.ofList b).toList = b := String.toList_ofList
    have hkey : first.key = String.ofList a ++ "/seg-" ++ String.ofList b := by
      rw [← String.toList_inj, hl, String.toList_append, String.toList_append, hpath, htext,
        List.append_assoc]
    have hmedia : segmentMediaTemplate (first :: rest) baseUrl = _ :=
      segmentMediaTemplate_eq hkey (by rwa [htext]) baseUrl
    simp only [hmedia, expand_media] at h
    -- the first URL has the number 0
    have hurl := h 0 first rfl
    rw [hkey, segment_url, htext, ← hkey] at hurl
    have hplain : ¬ numberFormat.toList <:+: (mediaUrl baseUrl (String.ofList a ++ "/seg")).toList := by
      rw [hzero, hformat] at hurl
      rw [hformat]
      exact not_infix_of_replaceAll (by decide) hurl
    rw [replaceAll_eq_self hplain, List.append_cancel_left_eq, List.cons.injEq] at hurl
    obtain ⟨hnumber, hext⟩ := first_extension hkey hurl.2.symm
    have hplainExt : ¬ numberFormat.toList <:+: (extension first.key).toList := by
      rw [hzero, hformat] at hext
      rw [hformat]
      exact not_infix_of_replaceAll (d := '0') (x := []) (y := []) (by decide) (by rw [hext])
    refine ⟨String.ofList a, extension first.key, ⟨fun i segment hsegment => ?_,
      dot_not_mem_extension _, ?_, hplainExt, ?_⟩⟩
    · have heq := h i segment hsegment
      rw [replaceAll_eq_self hplain, replaceAll_eq_self hplainExt, ← toList_numbered,
        ← segment_url, String.toList_inj] at heq
      rw [← mediaUrl_injective _ heq]
      simp only [String.append_assoc]
    · rw [hnumber] at hb
      exact fun hin => hb (hin.trans ((List.suffix_cons _ _).trans (List.suffix_append _ _)).isInfix)
    · rw [mediaUrl_append, String.toList_append] at hplain
      exact fun hin => hplain (hin.trans (List.prefix_append _ _).isInfix)

/-- **The template addresses the segments** if and only if they have equal durations and are numbered. -/
theorem addresses_iff : (dashSegmentTemplate initKey baseUrl (first :: rest)).Addresses baseUrl (first :: rest) ↔
    UniformDurations (first :: rest) ∧ ∃ path ext, Numbered baseUrl (first :: rest) path ext := by
  constructor
  · intro h
    have hall := uniform_of_addresses h
    exact ⟨hall, numbered_of_addresses ((addresses_uniform hall).1 h)⟩
  · rintro ⟨hall, path, ext, hnumbered⟩
    exact (addresses_uniform hall).2 fun i segment hi => addresses_of_numbered hnumbered i hi

end

/-- The names of this variant start from 1. -/
example : (dashSegmentTemplate "film/init.mp4" "" [⟨"film/seg-000001.m4s", 1, 4⟩]).url 0
    = some "/v1/media/film/seg-000000.m4s" := by decide +kernel

/-! ## The manifest of a stream -/

section
variable (ops : DashOps) (config : PlaylistConfig ℚ) (streamId : String) (s : IndexState)

theorem lookup_segments (segmentsOf : String → List (SegmentInfo ℚ)) {variants : List VariantInfo}
    {variant : VariantInfo} (h : variant ∈ variants) :
    (variants.map fun v => (v.variantId, segmentsOf v.variantId)).lookup variant.variantId
      = some (segmentsOf variant.variantId) := by
  induction variants with
  | nil => cases h
  | cons v variants ih =>
    rw [List.map_cons, List.lookup_cons]
    by_cases hv : variant.variantId = v.variantId
    · simp [hv]
    · rw [beq_false_of_ne hv]
      rcases List.mem_cons.1 h with rfl | h
      · exact absurd rfl hv
      · exact ih h

/-- The representations are those of the video and audio variants, each with its own segments. -/
theorem mem_representations {r : Representation} :
    r ∈ (dashMpd ops config streamId s).representations ↔
      r.variant ∈ (discoverVariants config.toStreamingConfig streamId s).1 ∧
      (r.variant.mediaType = "video" ∨ r.variant.mediaType = "audio") ∧
      r.template = dashSegmentTemplate r.variant.initKey config.baseUrl
        (dashSegments ops config streamId s r.variant.variantId) := by
  obtain ⟨variant, template⟩ := r
  simp only [Mpd.representations, dashMpd, generateDashMpd, List.mem_append, List.mem_map,
    List.mem_filter, decide_eq_true_eq, Representation.mk.injEq]
  constructor
  · rintro (⟨v, ⟨hv, htype⟩, rfl, rfl⟩ | ⟨v, ⟨hv, htype⟩, rfl, rfl⟩)
    · exact ⟨hv, .inl htype, by rw [lookup_segments _ hv, Option.getD_some]⟩
    · exact ⟨hv, .inr htype, by rw [lookup_segments _ hv, Option.getD_some]⟩
  · rintro ⟨hv, htype | htype, rfl⟩
    · exact .inl ⟨variant, ⟨hv, htype⟩, rfl, by rw [lookup_segments _ hv, Option.getD_some]⟩
    · exact .inr ⟨variant, ⟨hv, htype⟩, rfl, by rw [lookup_segments _ hv, Option.getD_some]⟩

/-- **What a manifest addresses**: each video or audio variant has a template, which gives the URLs of
its segments if and only if these have equal durations and names numbered from 0 on. -/
theorem dash_addresses_iff {variant : VariantInfo}
    (listed : variant ∈ (discoverVariants config.toStreamingConfig streamId s).1)
    (typed : variant.mediaType = "video" ∨ variant.mediaType = "audio")
    (stored : dashSegments ops config streamId s variant.variantId ≠ []) :
    variant ∈ (dashMpd ops config streamId s).representations.map Representation.variant ∧
    ∀ r ∈ (dashMpd ops config streamId s).representations, r.variant = variant →
      (r.template.Addresses config.baseUrl (dashSegments ops config streamId s variant.variantId) ↔
        UniformDurations (dashSegments ops config streamId s variant.variantId) ∧
        ∃ path ext,
          Numbered config.baseUrl (dashSegments ops config streamId s variant.variantId) path ext) := by
  refine ⟨List.mem_map.2 ⟨⟨variant, dashSegmentTemplate variant.initKey config.baseUrl
    (dashSegments ops config streamId s variant.variantId)⟩,
    (mem_representations ops config streamId s).2 ⟨listed, typed, rfl⟩, rfl⟩, ?_⟩
  rintro r hr rfl
  obtain ⟨-, -, htemplate⟩ := (mem_representations ops config streamId s).1 hr
  rw [htemplate]
  obtain ⟨first, rest, heq⟩ := List.exists_cons_of_ne_nil stored
  rw [heq]
  exact addresses_iff

end

/-! ## A clip -/

/-- Operations on seconds that agree with `f64` on small whole numbers. -/
def exactSeconds : DashOps where
  parse s := (Decimal.parse (2 ^ 53) s.toList).map fun n => (n : ℚ)
  four := 4
  ceilU64 q := asU64 ⌈q⌉
  fixed3 q := toString ⌊q⌋ ++ ".000"
  fixed1 q := toString ⌊q⌋ ++ ".0"

def clipSegment (key seconds : String) : MediaManifest :=
  { bareManifest key with metadata := [("segment-duration", seconds)] }

/-- The segments of a clip, the second of the given length. -/
def clipPage (seconds : String) : List MediaManifest :=
  [clipSegment "streams/clip/variants/720p/seg-000000.m4s" "4",
    clipSegment "streams/clip/variants/720p/seg-000001.m4s" seconds]

def clipInit : MediaManifest := bareManifest "streams/clip/variants/720p/init.mp4"

def clip (seconds : String) : IndexState :=
  replayLog ((clipInit :: clipPage seconds).map .putManifest)

def exactPlaylists : PlaylistConfig ℚ := ⟨⟨"streams/"⟩, 4, "", true⟩

def clipVariant : VariantInfo := variantInfo "720p" clipInit

theorem clipVariant_listed {seconds : String} (h : seconds = "4" ∨ seconds = "2") :
    clipVariant ∈ (discoverVariants ⟨"streams/"⟩ "clip/" (clip seconds)).1 := by
  rcases h with rfl | rfl <;> decide +kernel

theorem clip_listPage {seconds : String} (h : seconds = "4" ∨ seconds = "2") :
    (Index.listPage "streams/clip/variants/720p/seg-" 100000 "" (clip seconds)).1 = clipPage seconds := by
  rcases h with rfl | rfl <;> decide +kernel

/-- Segments that come in the order of their indices are not moved. -/
theorem clip_segments {seconds : String} (h : seconds = "4" ∨ seconds = "2") :
    dashSegments exactSeconds exactPlaylists "clip/" (clip seconds) "720p"
      = collectSegments exactSeconds.toFloatOps (clipPage seconds) [] := by
  have hpage : (Index.listPage (segmentsPrefix ⟨"streams/"⟩ "clip/" "720p") 100000 "" (clip seconds)).1
      = clipPage seconds := clip_listPage h
  have hsorted : (collectSegments exactSeconds.toFloatOps (clipPage seconds) []).Pairwise
      fun a b => decide (a.index ≤ b.index) = true := by
    rcases h with rfl | rfl <;> decide +kernel
  rw [dashSegments, discoverSegments]
  exact (congrArg (fun l => (collectSegments exactSeconds.toFloatOps l []).mergeSort
    fun a b => a.index ≤ b.index) hpage).trans (List.mergeSort_of_pairwise hsorted)

theorem dash_addresses_iff_clip :
    clipVariant ∈ (dashMpd exactSeconds exactPlaylists "clip/" (clip "4")).representations.map
      Representation.variant ∧
    ∀ r ∈ (dashMpd exactSeconds exactPlaylists "clip/" (clip "4")).representations,
      r.variant = clipVariant →
      (r.template.Addresses "" (dashSegments exactSeconds exactPlaylists "clip/" (clip "4") "720p") ↔
        UniformDurations (dashSegments exactSeconds exactPlaylists "clip/" (clip "4") "720p") ∧
        ∃ path ext, Numbered "" (dashSegments exactSeconds exactPlaylists "clip/" (clip "4") "720p")
          path ext) :=
  dash_addresses_iff exactSeconds exactPlaylists "clip/" (clip "4")
    (clipVariant_listed (.inl rfl)) (.inl (by decide))
    (by rw [show clipVariant.variantId = "720p" from rfl, clip_segments (.inl rfl)]; exact List.cons_ne_nil _ _)

/-- A last segment of 2 s after one of 4 s, and none of them has a URL. -/
theorem shorter_segment_unaddressed : ¬ ∀ (ops : DashOps) (config : PlaylistConfig ℚ)
    (streamId : String) (s : IndexState) (variant : VariantInfo),
    variant ∈ (discoverVariants config.toStreamingConfig streamId s).1 →
    (variant.mediaType = "video" ∨ variant.mediaType = "audio") →
    dashSegments ops config streamId s variant.variantId ≠ [] →
    ∃ r ∈ (dashMpd ops config streamId s).representations, r.variant = variant ∧
      r.template.Addresses config.baseUrl (dashSegments ops config streamId s variant.variantId) := by
  intro h
  have hsegments := clip_segments (.inr rfl)
  obtain ⟨r, hr, hvariant, haddresses⟩ := h exactSeconds exactPlaylists "clip/" (clip "2") clipVariant
    (clipVariant_listed (.inr rfl)) (.inl (by decide))
    (by rw [show clipVariant.variantId = "720p" from rfl, hsegments]; exact List.cons_ne_nil _ _)
  obtain ⟨-, -, htemplate⟩ := (mem_representations _ _ _ _).1 hr
  rw [htemplate, hvariant, show clipVariant.variantId = "720p" from rfl, hsegments] at haddresses
  have huniform := uniform_of_addresses haddresses
  rw [← allUniform_iff] at huniform
  exact absurd huniform (by decide +kernel)

end KaidaDB
