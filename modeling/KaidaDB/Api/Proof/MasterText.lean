import KaidaDB.Api.PlaylistText
import KaidaDB.Lib.Decimal
import KaidaDB.Storage.Proof.Listing

/-!
# The HLS master playlist as a text

`generate_hls_master` writes the lines of `masterItems` (`master_text`), and what is read of these are
the `masterLines` (`masterItems_lines`). So the playlist is read back exactly if what it is made of is
plain (`master_iff`), which is a matter of the fields (`plain_masterItems_iff`).
-/

namespace KaidaDB

variable {baseUrl streamId : String} {variants : List VariantInfo}

/-! ## Lines -/

/-- The tag of a variant and its URI. -/
def streamItems (url : String) (attributes : List M3u8.Attribute) : List M3u8.Item :=
  [.tag streamInfTag attributes, .uri url.toList]

/-- The lines of the master playlist. -/
def masterItems (baseUrl streamId : String) (variants : List VariantInfo) : List M3u8.Item :=
  let audio := variants.filter fun v => v.mediaType = "audio"
  let video := variants.filter fun v => v.mediaType = "video"
  let subtitle := variants.filter fun v => v.mediaType = "subtitle"
  [.other "#EXTM3U".toList, .other "#EXT-X-VERSION:7".toList, .other []] ++
    audio.map (fun v => .tag mediaTag (v.audioAttributes baseUrl streamId)) ++
    subtitle.map (fun v => .tag mediaTag (v.subtitleAttributes baseUrl streamId)) ++
    (if audio ≠ [] ∨ subtitle ≠ [] then [.other []] else []) ++
    video.flatMap (fun v => streamItems (v.playlistUrl baseUrl streamId)
      (v.videoAttributes (audio ≠ []) (subtitle ≠ []))) ++
    (if video = [] ∧ audio ≠ [] then
      audio.flatMap fun v => streamItems (v.playlistUrl baseUrl streamId) v.soundAttributes else [])

theorem toList_ite {α : Type} {c : Prop} [Decidable c] {s : String} {l : List α} {f : α → List Char}
    (h : s.toList = l.flatMap f) : (if c then s else "").toList = (if c then l else []).flatMap f := by
  split_ifs
  · exact h
  · rfl

theorem toList_ite_not {α : Type} {c : Prop} [Decidable c] {s : String} {l : List α}
    {f : α → List Char} (h : s.toList = l.flatMap f) :
    (if c then "" else s).toList = (if c then [] else l).flatMap f := by
  split_ifs
  · rfl
  · exact h

theorem audioMedia_text (v : VariantInfo) : (v.audioMedia baseUrl streamId).toList
    = M3u8.written [.tag mediaTag (v.audioAttributes baseUrl streamId)] := by
  unfold VariantInfo.audioMedia VariantInfo.audioAttributes
  delta mediaTag
  simp [toString, M3u8.written, M3u8.Item.text, M3u8.attributesText, M3u8.attributeText, attr,
    quotedValue, bareValue, M3u8.Value.text]

theorem subtitleMedia_text (v : VariantInfo) : (v.subtitleMedia baseUrl streamId).toList
    = M3u8.written [.tag mediaTag (v.subtitleAttributes baseUrl streamId)] := by
  unfold VariantInfo.subtitleMedia VariantInfo.subtitleAttributes
  delta mediaTag
  simp [toString, M3u8.written, M3u8.Item.text, M3u8.attributesText, M3u8.attributeText, attr,
    quotedValue, bareValue, M3u8.Value.text]

/-- Behind the first attribute. -/
def moreText (a : M3u8.Attribute) : List Char := ',' :: M3u8.attributeText a

theorem attributesText_cons (a : M3u8.Attribute) (as : List M3u8.Attribute) :
    M3u8.attributesText (a :: as) = M3u8.attributeText a ++ as.flatMap moreText := by
  induction as generalizing a with
  | nil => simp [M3u8.attributesText]
  | cons b as ih =>
    have hcons : M3u8.attributesText (a :: b :: as)
        = M3u8.attributeText a ++ ',' :: M3u8.attributesText (b :: as) := by simp [M3u8.attributesText]
    rw [hcons, ih b]
    rfl

/-- The lines of a variant to choose from. -/
theorem streamInf_text {attrs url : String} {as : List M3u8.Attribute}
    (h : attrs.toList = M3u8.attributesText as) :
    (s!"#EXT-X-STREAM-INF:{attrs}\n{url}\n").toList = M3u8.written (streamItems url as) := by
  unfold streamItems
  delta streamInfTag
  simp [toString, M3u8.written, M3u8.Item.text, h]

theorem codecs_text (v : VariantInfo) :
    (if v.codec = "" then "" else s!",CODECS=\"{v.codec}\"").toList
      = v.codecAttributes.flatMap moreText := by
  unfold VariantInfo.codecAttributes
  refine toList_ite_not ?_
  simp [toString, moreText, M3u8.attributeText, attr, quotedValue, M3u8.Value.text]

theorem bandwidth_text (n : Nat) : (s!"BANDWIDTH={n}").toList
    = M3u8.attributeText (attr "BANDWIDTH" (bareValue (toString n))) := by
  simp [toString, M3u8.attributeText, attr, bareValue, M3u8.Value.text]

theorem videoStreamInf_text (hasAudio hasSubtitles : Bool) (v : VariantInfo) :
    (v.videoStreamInf baseUrl streamId hasAudio hasSubtitles).toList
      = M3u8.written (streamItems (v.playlistUrl baseUrl streamId)
          (v.videoAttributes hasAudio hasSubtitles)) := by
  unfold VariantInfo.videoStreamInf
  refine streamInf_text ?_
  have hresolution : (if 0 < v.width ∧ 0 < v.height then s!",RESOLUTION={v.width}x{v.height}"
        else "").toList
      = (if 0 < v.width ∧ 0 < v.height then
          [attr "RESOLUTION" (bareValue s!"{v.width}x{v.height}")] else []).flatMap moreText := by
    refine toList_ite ?_
    simp [toString, moreText, M3u8.attributeText, attr, bareValue, M3u8.Value.text]
  have hrate : (if v.frameRate = "" then "" else s!",FRAME-RATE={v.frameRate}").toList
      = (if v.frameRate = "" then [] else
          [attr "FRAME-RATE" (bareValue v.frameRate)]).flatMap moreText := by
    refine toList_ite_not ?_
    simp [toString, moreText, M3u8.attributeText, attr, bareValue, M3u8.Value.text]
  have haudio : (if hasAudio then ",AUDIO=\"audio\"" else "").toList
      = (if hasAudio then [attr "AUDIO" (quotedValue "audio")] else []).flatMap moreText := by
    refine toList_ite ?_
    simp [moreText, M3u8.attributeText, attr, quotedValue, M3u8.Value.text]
  have hsubtitles : (if hasSubtitles then ",SUBTITLES=\"subs\"" else "").toList
      = (if hasSubtitles then [attr "SUBTITLES" (quotedValue "subs")] else []).flatMap moreText := by
    refine toList_ite ?_
    simp [moreText, M3u8.attributeText, attr, quotedValue, M3u8.Value.text]
  rw [VariantInfo.videoAttributes, attributesText_cons, String.toList_append, String.toList_append,
    String.toList_append, String.toList_append, String.toList_append, bandwidth_text, hresolution,
    codecs_text, hrate, haudio, hsubtitles, List.flatMap_append, List.flatMap_append,
    List.flatMap_append, List.flatMap_append]
  simp only [List.append_assoc]

theorem audioStreamInf_text (v : VariantInfo) : (v.audioStreamInf baseUrl streamId).toList
    = M3u8.written (streamItems (v.playlistUrl baseUrl streamId) v.soundAttributes) := by
  unfold VariantInfo.audioStreamInf
  refine streamInf_text ?_
  rw [VariantInfo.soundAttributes, attributesText_cons, String.toList_append, bandwidth_text, codecs_text]

theorem written_append (a b : List M3u8.Item) :
    M3u8.written (a ++ b) = M3u8.written a ++ M3u8.written b := List.flatMap_append

/-- The texts of variants one behind the other. -/
theorem join_text {f : VariantInfo → String} {g : VariantInfo → List M3u8.Item}
    (h : ∀ v, (f v).toList = M3u8.written (g v)) (vs : List VariantInfo) :
    (String.join (vs.map f)).toList = M3u8.written (vs.flatMap g) := by
  induction vs with
  | nil => rfl
  | cons v vs ih =>
    rw [String.toList_join] at ih
    rw [String.toList_join, List.map_cons, List.flatMap_cons, List.flatMap_cons, written_append, ih, h]

theorem join_map_text {f : VariantInfo → String} {g : VariantInfo → M3u8.Item}
    (h : ∀ v, (f v).toList = M3u8.written [g v]) (vs : List VariantInfo) :
    (String.join (vs.map f)).toList = M3u8.written (vs.map g) := by
  rw [join_text h, List.map_eq_flatMap]

/-- **The master playlist is these lines.** -/
theorem master_text (baseUrl streamId : String) (variants : List VariantInfo) :
    (generateHlsMaster baseUrl streamId variants).toList
      = M3u8.written (masterItems baseUrl streamId variants) := by
  have hhead : ("#EXTM3U\n#EXT-X-VERSION:7\n\n" : String).toList
      = M3u8.written [.other "#EXTM3U".toList, .other "#EXT-X-VERSION:7".toList, .other []] := by
    simp [M3u8.written, M3u8.Item.text]
  have hblank : ∀ (c : Prop) [Decidable c], (if c then "\n" else "").toList
      = M3u8.written (if c then [.other []] else []) := by
    intro c _
    split_ifs <;> rfl
  have halone : ∀ (c : Prop) [Decidable c] (audio : List VariantInfo),
      (if c then String.join (audio.map (VariantInfo.audioStreamInf baseUrl streamId)) else "").toList
        = M3u8.written (if c then audio.flatMap fun v =>
            streamItems (v.playlistUrl baseUrl streamId) v.soundAttributes else []) := by
    intro c _ audio
    split_ifs
    · exact join_text audioStreamInf_text audio
    · rfl
  unfold generateHlsMaster masterItems
  dsimp only
  rw [written_append, written_append, written_append,
    written_append, written_append, String.toList_append, String.toList_append, String.toList_append,
    String.toList_append, String.toList_append, hhead, join_map_text audioMedia_text,
    join_map_text subtitleMedia_text, hblank, join_text (videoStreamInf_text _ _), halone]

/-- What is read of them. -/
theorem masterItems_lines (baseUrl streamId : String) (variants : List VariantInfo) :
    (masterItems baseUrl streamId variants).filterMap M3u8.Item.line?
      = masterLines baseUrl streamId variants := by
  have hstream : ∀ (f : VariantInfo → List M3u8.Attribute) (vs : List VariantInfo),
      (vs.flatMap fun v => streamItems (v.playlistUrl baseUrl streamId) (f v)).filterMap
          M3u8.Item.line?
        = vs.flatMap fun v => [M3u8.Line.tag streamInfTag (some (f v)),
            .uri (v.playlistUrl baseUrl streamId).toList] := by
    intro f vs
    rw [List.filterMap_flatMap]
    rfl
  rw [masterItems, masterLines]
  dsimp only
  have hskip : ∀ (c : Prop) [Decidable c],
      (if c then [M3u8.Item.other []] else []).filterMap M3u8.Item.line? = [] := by
    intro c _
    split_ifs <;> rfl
  have htracks : ∀ (f : VariantInfo → List M3u8.Attribute) (vs : List VariantInfo),
      (vs.map fun v => M3u8.Item.tag mediaTag (f v)).filterMap M3u8.Item.line?
        = vs.map fun v => .tag mediaTag (some (f v)) := by
    intro f vs
    rw [List.filterMap_map]
    exact congrFun List.filterMap_eq_map vs
  have hhead : [M3u8.Item.other "#EXTM3U".toList, .other "#EXT-X-VERSION:7".toList,
      .other []].filterMap M3u8.Item.line? = [] := rfl
  simp only [List.filterMap_append, hstream, hskip, htracks, hhead, List.nil_append,
    List.append_assoc]
  generalize variants.filter (fun v => v.mediaType = "audio") = audio
  generalize variants.filter (fun v => v.mediaType = "video") = video
  congr 2
  by_cases hvideo : video = []
  · by_cases haudio : audio = []
    · simp [hvideo, haudio]
    · rw [if_pos hvideo, if_pos ⟨hvideo, haudio⟩, hstream, hvideo]
      rfl
  · rw [if_neg hvideo, if_neg fun h => hvideo h.1]
    exact List.append_nil _

/-! ## Characters of URLs -/

section
variable {p : Char → Prop}

theorem forall_append_iff {s t : String} :
    (∀ c ∈ (s ++ t).toList, p c) ↔ (∀ c ∈ s.toList, p c) ∧ ∀ c ∈ t.toList, p c := by
  rw [String.toList_append, List.forall_mem_append]

theorem exists_slashes (s : String) :
    ∃ l, s.toList = (trimEndSlashes s).toList ++ l ∧ ∀ c ∈ l, c = '/' := by
  refine ⟨(s.toList.reverse.takeWhile (· = '/')).reverse, ?_, fun c hc => ?_⟩
  · rw [trimEndSlashes, String.toList_ofList, ← List.reverse_append, List.takeWhile_append_dropWhile,
      List.reverse_reverse]
  · have hslash := List.all_eq_true.1 List.all_takeWhile c (List.mem_reverse.1 hc)
    exact of_decide_eq_true hslash

theorem forall_trimEndSlashes_iff (hp : p '/') {s : String} :
    (∀ c ∈ (trimEndSlashes s).toList, p c) ↔ ∀ c ∈ s.toList, p c := by
  obtain ⟨l, hl, hslash⟩ := exists_slashes s
  rw [hl, List.forall_mem_append]
  exact ⟨fun h => ⟨h, fun c hc => hslash c hc ▸ hp⟩, fun h => h.1⟩

/-- The characters of a URL below a base. -/
theorem forall_below_iff (hp : p '/') {base path : String} :
    (∀ c ∈ (if base = "" then path else trimEndSlashes base ++ path).toList, p c) ↔
      (∀ c ∈ base.toList, p c) ∧ ∀ c ∈ path.toList, p c := by
  split_ifs with h
  · rw [h]
    exact ⟨fun hpath => ⟨fun c hc => absurd hc List.not_mem_nil, hpath⟩, fun h => h.2⟩
  · rw [forall_append_iff, forall_trimEndSlashes_iff hp]

end

theorem playlistUrl_eq (v : VariantInfo) : v.playlistUrl baseUrl streamId =
    if baseUrl = "" then "/v1/streams/" ++ streamId ++ "/variant/" ++ v.variantId ++ "/playlist.m3u8"
    else trimEndSlashes baseUrl ++
      ("/v1/streams/" ++ streamId ++ "/variant/" ++ v.variantId ++ "/playlist.m3u8") := by
  rw [VariantInfo.playlistUrl, variantPlaylistUrl]
  split_ifs
  · rfl
  · simp only [toString, String.append_assoc]

/-- The characters of the URL of a media playlist. -/
theorem forall_playlistUrl_iff {p : Char → Prop} (hp : ∀ c ∈ "/v1/streams/variant/playlist.m3u8".toList, p c)
    {v : VariantInfo} : (∀ c ∈ (v.playlistUrl baseUrl streamId).toList, p c) ↔
      (∀ c ∈ baseUrl.toList, p c) ∧ (∀ c ∈ streamId.toList, p c) ∧ ∀ c ∈ v.variantId.toList, p c := by
  have hlit : ∀ s : String, (∀ c ∈ s.toList, c ∈ "/v1/streams/variant/playlist.m3u8".toList) →
      ∀ c ∈ s.toList, p c := fun s hs c hc => hp c (hs c hc)
  have h1 := hlit "/v1/streams/" (by decide)
  have h2 := hlit "/variant/" (by decide)
  have h3 := hlit "/playlist.m3u8" (by decide)
  rw [playlistUrl_eq, forall_below_iff (hp '/' (by decide)), forall_append_iff, forall_append_iff,
    forall_append_iff, forall_append_iff]
  tauto

/-- A URL begins like its base. -/
theorem head_playlistUrl_iff {v : VariantInfo} :
    (v.playlistUrl baseUrl streamId).toList.head? = some '#' ↔ startsWith baseUrl "#" = true := by
  obtain ⟨l, hl, hslash⟩ := exists_slashes baseUrl
  have hstart : startsWith baseUrl "#" = true ↔ baseUrl.toList.head? = some '#' := by
    rw [startsWith_iff]
    cases baseUrl.toList <;> simp
  rw [hstart, playlistUrl_eq]
  split_ifs with h
  · rw [h]
    simp
  · rw [String.toList_append, hl]
    cases (trimEndSlashes baseUrl).toList with
    | cons c r => simp
    | nil =>
      have hslashes : l.head? ≠ some '#' := fun h => by
        have := hslash '#' (List.mem_of_head? h)
        cases this
      simpa using hslashes

theorem head_playlistUrl (v : VariantInfo) : (v.playlistUrl baseUrl streamId).toList ≠ [] := by
  rw [playlistUrl_eq]
  split_ifs <;> simp

/-! ## What is plain -/

/-- What holds of the lines of the playlist. -/
theorem forall_masterItems_iff {P : M3u8.Item → Prop}
    (hother : P (.other "#EXTM3U".toList) ∧ P (.other "#EXT-X-VERSION:7".toList) ∧ P (.other [])) :
    (∀ item ∈ masterItems baseUrl streamId variants, P item) ↔
      (∀ v ∈ variants, v.mediaType = "audio" → P (.tag mediaTag (v.audioAttributes baseUrl streamId))) ∧
      (∀ v ∈ variants, v.mediaType = "subtitle" →
        P (.tag mediaTag (v.subtitleAttributes baseUrl streamId))) ∧
      (∀ v ∈ variants, v.mediaType = "video" →
        ∀ item ∈ streamItems (v.playlistUrl baseUrl streamId)
          (v.videoAttributes (variants.filter (fun v => v.mediaType = "audio") ≠ [])
            (variants.filter (fun v => v.mediaType = "subtitle") ≠ [])), P item) ∧
      ((∀ v ∈ variants, v.mediaType ≠ "video") → ∀ v ∈ variants, v.mediaType = "audio" →
        ∀ item ∈ streamItems (v.playlistUrl baseUrl streamId) v.soundAttributes, P item) := by
  obtain ⟨h1, h2, h3⟩ := hother
  have hhead : ∀ item ∈ [M3u8.Item.other "#EXTM3U".toList, .other "#EXT-X-VERSION:7".toList,
      .other []], P item :=
    List.forall_mem_cons.2 ⟨h1, List.forall_mem_cons.2 ⟨h2, List.forall_mem_singleton.2 h3⟩⟩
  have hblank : ∀ (c : Prop) [Decidable c],
      ∀ item ∈ (if c then [M3u8.Item.other []] else []), P item := by
    intro c _ item hitem
    split_ifs at hitem
    · exact List.mem_singleton.1 hitem ▸ h3
    · exact absurd hitem List.not_mem_nil
  have hmedia : ∀ (t : String) (Q : VariantInfo → Prop),
      (∀ v ∈ variants.filter (fun v => v.mediaType = t), Q v) ↔ ∀ v ∈ variants, v.mediaType = t → Q v := by
    intro t Q
    simp only [List.mem_filter, decide_eq_true_eq, and_imp]
  have hvideo : variants.filter (fun v => v.mediaType = "video") = [] ↔
      ∀ v ∈ variants, v.mediaType ≠ "video" := by
    simp only [List.filter_eq_nil_iff, decide_eq_true_eq, ne_eq]
  have halone : (∀ item ∈ (if variants.filter (fun v => v.mediaType = "video") = [] ∧
        variants.filter (fun v => v.mediaType = "audio") ≠ [] then
        (variants.filter fun v => v.mediaType = "audio").flatMap fun v =>
          streamItems (v.playlistUrl baseUrl streamId) v.soundAttributes else []), P item) ↔
      ((∀ v ∈ variants, v.mediaType ≠ "video") → ∀ v ∈ variants, v.mediaType = "audio" →
        ∀ item ∈ streamItems (v.playlistUrl baseUrl streamId) v.soundAttributes, P item) := by
    rw [← hvideo, ← hmedia]
    by_cases hnone : variants.filter (fun v => v.mediaType = "video") = []
    · by_cases haudio : variants.filter (fun v => v.mediaType = "audio") = []
      · simp [haudio]
      · rw [if_pos ⟨hnone, haudio⟩, List.forall_mem_flatMap]
        exact ⟨fun h _ => h, fun h => h hnone⟩
    · rw [if_neg fun h => hnone h.1]
      exact ⟨fun _ h => absurd h hnone, fun _ => fun item hitem => absurd hitem List.not_mem_nil⟩
  unfold masterItems
  rw [List.forall_mem_append, List.forall_mem_append, List.forall_mem_append, List.forall_mem_append,
    List.forall_mem_append, List.forall_mem_map, List.forall_mem_map, List.forall_mem_flatMap, hmedia,
    hmedia, hmedia, halone]
  exact ⟨fun h => ⟨h.1.1.1.1.2, h.1.1.1.2, h.1.2, h.2⟩,
    fun h => ⟨⟨⟨⟨⟨hhead, h.1⟩, h.2.1⟩, hblank _⟩, h.2.2.1⟩, h.2.2.2⟩⟩

theorem forall_ite_iff {α : Type} {P : α → Prop} {c : Prop} [Decidable c] {l : List α} :
    (∀ a ∈ (if c then l else []), P a) ↔ (c → ∀ a ∈ l, P a) := by
  split_ifs with h
  · exact ⟨fun hl _ => hl, fun hl => hl h⟩
  · exact ⟨fun _ hc => absurd hc h, fun _ a ha => absurd ha List.not_mem_nil⟩

theorem forall_ite_not_iff {α : Type} {P : α → Prop} {c : Prop} [Decidable c] {l : List α} :
    (∀ a ∈ (if c then [] else l), P a) ↔ (¬ c → ∀ a ∈ l, P a) := by
  split_ifs with h
  · exact ⟨fun _ hc => absurd h hc, fun _ a ha => absurd ha List.not_mem_nil⟩
  · exact ⟨fun hl _ => hl, fun hl => hl h⟩

theorem forall_videoAttributes_iff {P : M3u8.Attribute → Prop} {hasAudio hasSubtitles : Bool}
    {v : VariantInfo} : (∀ a ∈ v.videoAttributes hasAudio hasSubtitles, P a) ↔
      P (attr "BANDWIDTH" (bareValue (toString v.bandwidth))) ∧
      ((0 < v.width ∧ 0 < v.height → P (attr "RESOLUTION" (bareValue s!"{v.width}x{v.height}"))) ∧
        (∀ a ∈ v.codecAttributes, P a)) ∧
      (v.frameRate ≠ "" → P (attr "FRAME-RATE" (bareValue v.frameRate))) ∧
      (hasAudio = true → P (attr "AUDIO" (quotedValue "audio"))) ∧
      (hasSubtitles = true → P (attr "SUBTITLES" (quotedValue "subs"))) := by
  rw [VariantInfo.videoAttributes, List.forall_mem_cons, List.forall_mem_append, List.forall_mem_append,
    List.forall_mem_append, List.forall_mem_append, forall_ite_iff, forall_ite_iff, forall_ite_iff,
    forall_ite_not_iff, List.forall_mem_singleton, List.forall_mem_singleton, List.forall_mem_singleton,
    List.forall_mem_singleton, and_assoc, and_assoc]

/-- The names of attributes have no other characters than they may have. -/
def NameFits (a : M3u8.Attribute) : Prop := ∀ c ∈ a.1, M3u8.isNameChar c = true

theorem nameFits_codec {v : VariantInfo} : ∀ a ∈ v.codecAttributes, NameFits a := by
  unfold VariantInfo.codecAttributes
  rw [forall_ite_not_iff, List.forall_mem_singleton]
  intro _
  show ∀ c ∈ "CODECS".toList, M3u8.isNameChar c = true
  decide

theorem nameFits_attr {name : String} {value : M3u8.Value}
    (h : ∀ c ∈ name.toList, M3u8.isNameChar c = true) : NameFits (attr name value) := h

/-- The first three lines and the empty one are skipped, and all tags have their attributes. -/
theorem masterItems_fit (baseUrl streamId : String) (variants : List VariantInfo) :
    ∀ item ∈ masterItems baseUrl streamId variants, item.Fits [mediaTag, streamInfTag] := by
  have hmedia : ∀ c ∈ mediaTag, c ≠ ':' ∧ M3u8.isBreak c = false := by decide
  have hstream : ∀ c ∈ streamInfTag, c ≠ ':' ∧ M3u8.isBreak c = false := by decide
  have hitems : ∀ (url : String) (as : List M3u8.Attribute), as ≠ [] → (∀ a ∈ as, NameFits a) →
      ∀ item ∈ streamItems url as, item.Fits [mediaTag, streamInfTag] := by
    intro url as hne has
    refine List.forall_mem_cons.2 ⟨⟨List.mem_cons_of_mem _ List.mem_cons_self, hstream, hne, has⟩, ?_⟩
    exact List.forall_mem_singleton.2 trivial
  refine (forall_masterItems_iff ⟨⟨by decide, by decide⟩, ⟨by decide, by decide⟩, ⟨by decide, nofun⟩⟩).2
    ⟨fun v _ _ => ⟨List.mem_cons_self, hmedia, List.cons_ne_nil _ _, ?_⟩,
      fun v _ _ => ⟨List.mem_cons_self, hmedia, List.cons_ne_nil _ _, ?_⟩,
      fun v _ _ => hitems _ _ (List.cons_ne_nil _ _) (forall_videoAttributes_iff.2 ?_),
      fun _ v _ _ => hitems _ _ (List.cons_ne_nil _ _) (List.forall_mem_cons.2 ?_)⟩
  · unfold VariantInfo.audioAttributes
    simp only [List.forall_mem_cons]
    exact ⟨nameFits_attr (by decide), nameFits_attr (by decide), nameFits_attr (by decide),
      nameFits_attr (by decide), nameFits_attr (by decide), nameFits_attr (by decide), nofun⟩
  · unfold VariantInfo.subtitleAttributes
    simp only [List.forall_mem_cons]
    exact ⟨nameFits_attr (by decide), nameFits_attr (by decide), nameFits_attr (by decide),
      nameFits_attr (by decide), nameFits_attr (by decide), nameFits_attr (by decide), nofun⟩
  · exact ⟨nameFits_attr (by decide), ⟨fun _ => nameFits_attr (by decide), nameFits_codec⟩,
      fun _ => nameFits_attr (by decide), fun _ => nameFits_attr (by decide),
      fun _ => nameFits_attr (by decide)⟩
  · exact ⟨nameFits_attr (by decide), nameFits_codec⟩

/-! ## Plain values -/

theorem plain_quoted_iff {s : String} : (quotedValue s).Plain ↔ Quotable s := Iff.rfl

theorem plain_bare_iff {s : String} (hne : s ≠ "") : (bareValue s).Plain ↔ Unquoted s := by
  have hlist : s.toList ≠ [] := by simpa using hne
  exact ⟨fun h => h.2, fun h => ⟨hlist, h⟩⟩

theorem unquoted_of_le {s : String} (h : ∀ c ∈ s.toList, 48 ≤ c.toNat) : Unquoted s := by
  refine ⟨fun hhead => ?_, fun _ hc => ⟨?_, ?_⟩⟩
  · exact absurd (h '"' (List.mem_of_head? hhead)) (by decide)
  · rintro rfl
    exact absurd (h ',' hc) (by decide)
  · rw [Bool.eq_false_iff]
    intro hbreak
    simp only [M3u8.isBreak, Bool.or_eq_true, decide_eq_true_eq] at hbreak
    rcases hbreak with rfl | rfl <;> exact absurd (h _ hc) (by decide)

theorem plain_number (n : Nat) : (bareValue (toString n)).Plain := by
  have hne : toString n ≠ "" := fun h => by simpa using congrArg String.toList h
  exact (plain_bare_iff hne).2 (unquoted_of_le fun _ hc => (Decimal.digit_of_mem_toString hc).1)

theorem plain_resolution (width height : Nat) : (bareValue s!"{width}x{height}").Plain := by
  have htext : s!"{width}x{height}" = toString width ++ "x" ++ toString height := rfl
  have hne : s!"{width}x{height}" ≠ "" := fun h => by
    rw [htext] at h
    simpa using congrArg String.toList h
  refine (plain_bare_iff hne).2 (unquoted_of_le ?_)
  rw [htext, forall_append_iff, forall_append_iff]
  exact ⟨⟨fun _ hc => (Decimal.digit_of_mem_toString hc).1, by decide⟩,
    fun _ hc => (Decimal.digit_of_mem_toString hc).1⟩

theorem quotable_empty : Quotable "" := fun _ hc => absurd hc List.not_mem_nil

theorem plain_codecAttributes_iff {v : VariantInfo} :
    (∀ a ∈ v.codecAttributes, a.2.Plain) ↔ Quotable v.codec := by
  unfold VariantInfo.codecAttributes
  rw [forall_ite_not_iff, List.forall_mem_singleton]
  by_cases h : v.codec = ""
  · rw [h]
    exact iff_of_true (fun hne => absurd rfl hne) quotable_empty
  · exact ⟨fun hplain => hplain h, fun hplain _ => hplain⟩

theorem plain_videoAttributes_iff {hasAudio hasSubtitles : Bool} {v : VariantInfo} :
    (∀ a ∈ v.videoAttributes hasAudio hasSubtitles, a.2.Plain) ↔
      Quotable v.codec ∧ Unquoted v.frameRate := by
  have hrate : (v.frameRate ≠ "" → (bareValue v.frameRate).Plain) ↔ Unquoted v.frameRate := by
    by_cases h : v.frameRate = ""
    · rw [h]
      exact iff_of_true (fun hne => absurd rfl hne) ⟨nofun, nofun⟩
    · rw [plain_bare_iff h]
      exact ⟨fun hplain => hplain h, fun hplain _ => hplain⟩
  have haudio : (quotedValue "audio").Plain := by rw [plain_quoted_iff, Quotable]; decide
  have hsubtitles : (quotedValue "subs").Plain := by rw [plain_quoted_iff, Quotable]; decide
  rw [forall_videoAttributes_iff]
  constructor
  · rintro ⟨-, ⟨-, hcodec⟩, hplain, -⟩
    exact ⟨plain_codecAttributes_iff.1 hcodec, hrate.1 hplain⟩
  · rintro ⟨hcodec, hplain⟩
    exact ⟨plain_number _, ⟨fun _ => plain_resolution _ _, plain_codecAttributes_iff.2 hcodec⟩,
      hrate.2 hplain, fun _ => haudio, fun _ => hsubtitles⟩

theorem plain_soundAttributes_iff {v : VariantInfo} :
    (∀ a ∈ v.soundAttributes, a.2.Plain) ↔ Quotable v.codec := by
  rw [VariantInfo.soundAttributes, List.forall_mem_cons, plain_codecAttributes_iff]
  exact ⟨fun h => h.2, fun h => ⟨plain_number _, h⟩⟩

theorem quotable_lang_iff {v : VariantInfo} : Quotable v.lang ↔ Quotable v.language := by
  have hund : Quotable "und" := by rw [Quotable]; decide
  rw [VariantInfo.lang]
  split_ifs with h
  · rw [h]
    exact iff_of_true hund quotable_empty
  · rfl

theorem quotable_playlistUrl_iff {v : VariantInfo} : Quotable (v.playlistUrl baseUrl streamId) ↔
    Quotable baseUrl ∧ Quotable streamId ∧ Quotable v.variantId :=
  forall_playlistUrl_iff (by decide)

/-- The name of a track is its language or its id, which is in the URL as well. -/
theorem quotable_trackName {v : VariantInfo} (hlang : Quotable v.language) (hid : Quotable v.variantId) :
    Quotable v.trackName := by
  rw [VariantInfo.trackName]
  split_ifs
  · exact hid
  · exact hlang

theorem plain_audioAttributes_iff {v : VariantInfo} :
    (∀ a ∈ v.audioAttributes baseUrl streamId, a.2.Plain) ↔ PlainTrack baseUrl streamId v := by
  have haudio : (bareValue "AUDIO").Plain := ⟨by decide, by decide, by decide⟩
  have hyes : (bareValue "YES").Plain := ⟨by decide, by decide, by decide⟩
  have hgroup : (quotedValue "audio").Plain := by rw [plain_quoted_iff, Quotable]; decide
  unfold VariantInfo.audioAttributes attr
  simp only [List.forall_mem_cons, haudio, hyes, hgroup, plain_quoted_iff, true_and, quotable_lang_iff,
    quotable_playlistUrl_iff]
  exact ⟨fun ⟨_, hlang, ⟨hbase, hstream, hid⟩, _⟩ => ⟨hlang, hid, hstream, hbase⟩,
    fun h => ⟨quotable_trackName h.language h.variantId, h.language, ⟨h.base, h.stream, h.variantId⟩,
      nofun⟩⟩

theorem plain_subtitleAttributes_iff {v : VariantInfo} :
    (∀ a ∈ v.subtitleAttributes baseUrl streamId, a.2.Plain) ↔ PlainTrack baseUrl streamId v := by
  have hsubtitles : (bareValue "SUBTITLES").Plain := ⟨by decide, by decide, by decide⟩
  have hno : (bareValue "NO").Plain := ⟨by decide, by decide, by decide⟩
  have hgroup : (quotedValue "subs").Plain := by rw [plain_quoted_iff, Quotable]; decide
  unfold VariantInfo.subtitleAttributes attr
  simp only [List.forall_mem_cons, hsubtitles, hno, hgroup, plain_quoted_iff, true_and,
    quotable_lang_iff, quotable_playlistUrl_iff]
  exact ⟨fun ⟨_, hlang, ⟨hbase, hstream, hid⟩, _⟩ => ⟨hlang, hid, hstream, hbase⟩,
    fun h => ⟨h.language, h.language, ⟨h.base, h.stream, h.variantId⟩, nofun⟩⟩

theorem plain_streamItems_iff {v : VariantInfo} {as : List M3u8.Attribute} {p : Prop}
    (has : (∀ a ∈ as, a.2.Plain) ↔ Quotable v.codec ∧ p) :
    (∀ item ∈ streamItems (v.playlistUrl baseUrl streamId) as, item.Plain) ↔
      PlainStream baseUrl streamId v ∧ p := by
  have hurl : (M3u8.Line.uri (v.playlistUrl baseUrl streamId).toList).Plain ↔
      startsWith baseUrl "#" = false ∧ Unbroken baseUrl ∧ Unbroken streamId ∧ Unbroken v.variantId := by
    rw [M3u8.Line.Plain, ne_eq, ne_eq, head_playlistUrl_iff, Bool.not_eq_true,
      forall_playlistUrl_iff (by decide)]
    exact and_iff_right (head_playlistUrl v)
  unfold streamItems
  rw [List.forall_mem_cons, List.forall_mem_singleton, M3u8.Item.Plain, M3u8.Item.Plain, has, hurl]
  exact ⟨fun ⟨⟨hcodec, hp⟩, htag, hbase, hstream, hid⟩ => ⟨⟨hcodec, hid, hstream, hbase, htag⟩, hp⟩,
    fun ⟨h, hp⟩ => ⟨⟨h.codec, hp⟩, h.noTag, h.base, h.stream, h.variantId⟩⟩

theorem plain_masterItems_iff : (∀ item ∈ masterItems baseUrl streamId variants, item.Plain) ↔
    PlainMaster baseUrl streamId variants := by
  have hvideo : ∀ (hasAudio hasSubtitles : Bool) (v : VariantInfo),
      (∀ item ∈ streamItems (v.playlistUrl baseUrl streamId)
          (v.videoAttributes hasAudio hasSubtitles), item.Plain) ↔
        PlainStream baseUrl streamId v ∧ Unquoted v.frameRate := fun _ _ _ =>
    plain_streamItems_iff plain_videoAttributes_iff
  have hsound : ∀ v : VariantInfo,
      (∀ item ∈ streamItems (v.playlistUrl baseUrl streamId) v.soundAttributes, item.Plain) ↔
        PlainStream baseUrl streamId v := fun v =>
    (plain_streamItems_iff (plain_soundAttributes_iff.trans (and_true _).symm.to_iff)).trans
      (and_true _).to_iff
  rw [forall_masterItems_iff ⟨trivial, trivial, trivial⟩]
  have haudio : ∀ v : VariantInfo, (M3u8.Item.tag mediaTag (v.audioAttributes baseUrl streamId)).Plain ↔
      PlainTrack baseUrl streamId v := fun _ => plain_audioAttributes_iff
  have hsubtitle : ∀ v : VariantInfo,
      (M3u8.Item.tag mediaTag (v.subtitleAttributes baseUrl streamId)).Plain ↔
        PlainTrack baseUrl streamId v := fun _ => plain_subtitleAttributes_iff
  simp only [hvideo, hsound, haudio, hsubtitle]
  constructor
  · rintro ⟨haudios, hsubtitles, hvideos, halone⟩
    exact ⟨fun v hv h => h.elim (haudios v hv) (hsubtitles v hv), hvideos, halone⟩
  · intro h
    exact ⟨fun v hv haudio => h.tracks v hv (.inl haudio),
      fun v hv hsubtitle => h.tracks v hv (.inr hsubtitle), h.video, h.audioOnly⟩

/-- **The master playlist is read back** exactly if its fields are plain. -/
theorem master_iff : M3u8.read [mediaTag, streamInfTag] (generateHlsMaster baseUrl streamId variants).toList
      = masterLines baseUrl streamId variants ↔ PlainMaster baseUrl streamId variants := by
  have hnames : ∀ name ∈ [mediaTag, streamInfTag], name.head? = some '#' := by decide
  rw [master_text, ← masterItems_lines, M3u8.read_written_iff hnames (masterItems_fit _ _ _),
    plain_masterItems_iff]

end KaidaDB
