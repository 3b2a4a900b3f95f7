import KaidaDB.Api.Proof.Dash
import KaidaDB.Api.Proof.MasterText

/-!
# The DASH manifest as a text

`Mpd.render` writes the tags of `Mpd.lines` (`render_text`), and these make a document
(`document_wellFormed`) with one representation for each variant (`representationsOf_document`). So the
manifest is read back exactly if the values of attributes are plain (`mpd_iff`).
-/

namespace KaidaDB

/-! ## Lines -/

theorem xmlAttributes_append (as bs : List (String × String)) :
    xmlAttributes (as ++ bs) = xmlAttributes as ++ xmlAttributes bs := List.map_append

/-- The text of attributes. -/
def attributesXml (as : List (String × String)) : List Char :=
  (xmlAttributes as).flatMap Xml.attributeText

theorem attributesXml_append (as bs : List (String × String)) :
    attributesXml (as ++ bs) = attributesXml as ++ attributesXml bs := by
  rw [attributesXml, xmlAttributes_append, List.flatMap_append]
  rfl

theorem written_cons (line : Nat × Xml.Tag) (lines : List (Nat × Xml.Tag)) :
    Xml.written (line :: lines) = Xml.lineText line ++ Xml.written lines := List.flatMap_cons

theorem written_append_xml (as bs : List (Nat × Xml.Tag)) :
    Xml.written (as ++ bs) = Xml.written as ++ Xml.written bs := List.flatMap_append

theorem lineText_opening (depth : Nat) (name : String) (as : List (String × String)) :
    Xml.lineText (depth, openingTag name as)
      = List.replicate (2 * depth) ' ' ++ '<' :: (name.toList ++ (attributesXml as ++ ['>', '\n'])) := by
  simp [Xml.lineText, openingTag, Xml.Tag.text, attributesXml]

theorem lineText_empty (depth : Nat) (name : String) (as : List (String × String)) :
    Xml.lineText (depth, emptyTag name as) = List.replicate (2 * depth) ' ' ++
      '<' :: (name.toList ++ (attributesXml as ++ ['/', '>', '\n'])) := by
  simp [Xml.lineText, emptyTag, Xml.Tag.text, attributesXml]

theorem lineText_closing (depth : Nat) (name : String) :
    Xml.lineText (depth, closingTag name)
      = List.replicate (2 * depth) ' ' ++ '<' :: '/' :: (name.toList ++ ['>', '\n']) := by
  simp [Xml.lineText, closingTag, Xml.Tag.text]

/-! ## Templates -/

theorem durations_text (durations : List Nat) :
    (String.join (durations.map fun duration => s!"            <S d=\"{duration}\"/>\n")).toList
      = Xml.written (durations.map fun duration => (6, emptyTag "S" [("d", toString duration)])) := by
  induction durations with
  | nil => rfl
  | cons duration durations ih =>
    rw [String.toList_join] at ih
    rw [String.toList_join, List.map_cons, List.map_cons, List.flatMap_cons, ih, written_cons,
      lineText_empty]
    simp [toString, attributesXml, xmlAttributes, Xml.attributeText]

theorem template_text (template : SegmentTemplate) :
    template.render.toList = Xml.written template.lines := by
  cases template with
  | uniform duration initialization media =>
    unfold SegmentTemplate.render SegmentTemplate.lines
    rw [written_cons, lineText_empty]
    simp [toString, attributesXml, xmlAttributes, Xml.attributeText, Xml.written]
  | timeline initialization durations =>
    unfold SegmentTemplate.render SegmentTemplate.lines
    rw [String.toList_append, String.toList_append, String.toList_append, durations_text,
      written_append_xml, written_append_xml, written_cons, written_cons, written_cons, written_cons,
      lineText_opening, lineText_opening, lineText_closing, lineText_closing]
    simp [toString, attributesXml, xmlAttributes, Xml.attributeText, Xml.written]

/-! ## Representations -/

theorem given_text (name value : String) :
    (givenAttribute name value).toList = attributesXml (given name value) := by
  unfold givenAttribute given
  split_ifs
  · rfl
  · simp [toString, attributesXml, xmlAttributes, Xml.attributeText]

theorem start_text (r : Representation) : r.start.toList = "      <Representation".toList ++
    attributesXml [("id", r.variant.variantId), ("bandwidth", toString r.variant.bandwidth)] := by
  unfold Representation.start
  simp [toString, attributesXml, xmlAttributes, Xml.attributeText]

/-- The first line of a representation. -/
theorem representation_opening (as : List (String × String)) :
    Xml.lineText (3, openingTag "Representation" as)
      = "      <Representation".toList ++ (attributesXml as ++ ">\n".toList) := by
  rw [lineText_opening]
  simp

theorem representation_closing :
    Xml.written [(3, closingTag "Representation")] = "      </Representation>\n".toList := by
  decide +kernel

theorem renderVideo_text (r : Representation) : r.renderVideo.toList = Xml.written r.videoLines := by
  have hsize : (if 0 < r.variant.width ∧ 0 < r.variant.height then
        s!" width=\"{r.variant.width}\" height=\"{r.variant.height}\"" else "").toList
      = attributesXml (if 0 < r.variant.width ∧ 0 < r.variant.height then
        [("width", toString r.variant.width), ("height", toString r.variant.height)] else []) := by
    split_ifs
    · simp [toString, attributesXml, xmlAttributes, Xml.attributeText]
    · rfl
  unfold Representation.renderVideo Representation.videoLines Representation.videoAttributes
  rw [String.toList_append, String.toList_append, String.toList_append, String.toList_append,
    String.toList_append, String.toList_append, start_text, hsize, given_text, given_text, template_text,
    written_cons, written_append_xml, representation_opening, representation_closing,
    attributesXml_append, attributesXml_append, attributesXml_append]
  simp only [List.append_assoc]

theorem channels_text (r : Representation) :
    (if r.variant.channels = "" then "" else
      s!"        <AudioChannelConfiguration schemeIdUri=\"{channelScheme}\"" ++
        s!" value=\"{r.variant.channels}\"/>\n").toList = Xml.written r.channelLines := by
  unfold Representation.channelLines
  split_ifs
  · rfl
  · rw [written_cons, lineText_empty]
    simp [toString, attributesXml, xmlAttributes, Xml.attributeText, Xml.written]

theorem renderAudio_text (r : Representation) : r.renderAudio.toList = Xml.written r.audioLines := by
  unfold Representation.renderAudio Representation.audioLines Representation.audioAttributes
  rw [String.toList_append, String.toList_append, String.toList_append, String.toList_append,
    String.toList_append, String.toList_append, start_text, given_text, given_text, channels_text,
    template_text, written_cons, written_append_xml, written_append_xml, representation_opening,
    representation_closing, attributesXml_append, attributesXml_append]
  simp only [List.append_assoc]

/-! ## The manifest -/

theorem join_representations {f : Representation → String} {g : Representation → List (Nat × Xml.Tag)}
    (h : ∀ r, (f r).toList = Xml.written (g r)) (rs : List Representation) :
    (String.join (rs.map f)).toList = Xml.written (rs.map g).flatten := by
  induction rs with
  | nil => rfl
  | cons r rs ih =>
    rw [String.toList_join] at ih
    rw [String.toList_join, List.map_cons, List.map_cons, List.flatMap_cons, List.flatten_cons,
      written_append_xml, h, ih]

theorem adaptation_text {f : Representation → String} {g : Representation → List (Nat × Xml.Tag)}
    (h : ∀ r, (f r).toList = Xml.written (g r)) (mimeType : String) (rs : List Representation) :
    (renderAdaptationSet mimeType (rs.map f)).toList
      = Xml.written (adaptationLines mimeType (rs.map g)) := by
  unfold renderAdaptationSet adaptationLines
  by_cases hrs : rs = []
  · subst hrs
    rfl
  · rw [if_neg (mt List.map_eq_nil_iff.1 hrs), if_neg (mt List.map_eq_nil_iff.1 hrs),
      String.toList_append, String.toList_append, join_representations h, written_cons,
      written_append_xml, written_cons, lineText_opening, lineText_closing]
    simp [toString, attributesXml, xmlAttributes, Xml.attributeText, Xml.written]

set_option maxRecDepth 2048 in
/-- **The manifest is these lines.** -/
theorem render_text (mpd : Mpd) : mpd.render.toList
    = "<?xml version=\"1.0\" encoding=\"UTF-8\"?>\n".toList ++ Xml.written mpd.lines := by
  unfold Mpd.render Mpd.lines Mpd.attributes
  rw [String.toList_append, String.toList_append, String.toList_append, adaptation_text renderVideo_text,
    adaptation_text renderAudio_text, written_cons, written_append_xml, written_cons, written_append_xml,
    written_append_xml, written_cons, written_cons, lineText_opening, lineText_opening, lineText_closing,
    lineText_closing]
  simp [toString, attributesXml, xmlAttributes, Xml.attributeText, Xml.written]

/-! ## Names -/

/-- The tag has names where it has to, and no attribute twice. -/
def TagFits (t : Xml.Tag) : Prop := t.Named ∧ (t.attributes.map Prod.fst).Nodup

/-- Names that may stand in one tag. -/
def TagNames (name : String) (names : List String) : Prop :=
  Xml.IsName name.toList ∧ (∀ n ∈ names, Xml.IsName n.toList) ∧ names.Nodup

instance (name : String) (names : List String) : Decidable (TagNames name names) :=
  inferInstanceAs (Decidable (_ ∧ _ ∧ _))

section
variable {name : String} {names : List String} {as : List (String × String)}

theorem names_xmlAttributes (as : List (String × String)) :
    (xmlAttributes as).map Prod.fst = (as.map Prod.fst).map String.toList := by
  rw [xmlAttributes, List.map_map, List.map_map]
  rfl

theorem fits_attributes (h : TagNames name names) (has : (as.map Prod.fst).Sublist names) :
    (∀ a ∈ xmlAttributes as, Xml.IsName a.1) ∧ ((xmlAttributes as).map Prod.fst).Nodup := by
  obtain ⟨-, hnames, hnodup⟩ := h
  refine ⟨fun a ha => ?_, ?_⟩
  · obtain ⟨b, hb, rfl⟩ := List.mem_map.1 ha
    exact hnames _ (has.subset (List.mem_map_of_mem hb))
  · rw [names_xmlAttributes]
    exact (has.nodup hnodup).map fun _ _ => String.toList_inj.1

theorem fits_opening (h : TagNames name names) (has : (as.map Prod.fst).Sublist names) :
    TagFits (openingTag name as) :=
  ⟨⟨h.1, (fits_attributes h has).1⟩, (fits_attributes h has).2⟩

theorem fits_empty (h : TagNames name names) (has : (as.map Prod.fst).Sublist names) :
    TagFits (emptyTag name as) :=
  ⟨⟨h.1, (fits_attributes h has).1⟩, (fits_attributes h has).2⟩

theorem fits_closing (h : Xml.IsName name.toList) : TagFits (closingTag name) :=
  ⟨⟨h, nofun⟩, List.nodup_nil⟩

end

theorem fits_template (template : SegmentTemplate) : ∀ line ∈ template.lines, TagFits line.2 := by
  cases template with
  | uniform duration initialization media =>
    have hnames : TagNames "SegmentTemplate"
        ["timescale", "duration", "startNumber", "initialization", "media"] := by decide
    exact List.forall_mem_singleton.2 (fits_empty hnames (List.Sublist.refl _))
  | timeline initialization durations =>
    have htemplate : TagNames "SegmentTemplate" ["timescale", "startNumber", "initialization"] := by
      decide
    have hduration : TagNames "S" ["d"] := by decide
    unfold SegmentTemplate.lines
    refine List.forall_mem_append.2 ⟨List.forall_mem_append.2 ⟨List.forall_mem_cons.2 ⟨?_,
      List.forall_mem_singleton.2 ?_⟩, List.forall_mem_map.2 fun duration _ => ?_⟩,
      List.forall_mem_cons.2 ⟨fits_closing (by decide), List.forall_mem_singleton.2
        (fits_closing (by decide))⟩⟩
    · exact fits_opening htemplate (List.Sublist.refl _)
    · exact fits_opening (by decide) (List.Sublist.refl _)
    · exact fits_empty hduration (List.Sublist.refl _)

theorem names_given (name value : String) : ((given name value).map Prod.fst).Sublist [name] := by
  unfold given
  split_ifs
  · exact List.nil_sublist _
  · exact List.Sublist.refl _

theorem fits_videoLines (r : Representation) : ∀ line ∈ r.videoLines, TagFits line.2 := by
  have hsize : ((if 0 < r.variant.width ∧ 0 < r.variant.height then
      [("width", toString r.variant.width), ("height", toString r.variant.height)] else []).map
      Prod.fst).Sublist ["width", "height"] := by
    split_ifs
    · exact List.Sublist.refl _
    · exact List.nil_sublist _
  have hnames : (r.videoAttributes.map Prod.fst).Sublist
      ["id", "bandwidth", "width", "height", "codecs", "frameRate"] := by
    rw [Representation.videoAttributes, List.map_append, List.map_append, List.map_append]
    exact (((List.Sublist.refl _).append hsize).append (names_given _ _)).append (names_given _ _)
  exact List.forall_mem_cons.2 ⟨fits_opening (by decide) hnames,
    List.forall_mem_append.2 ⟨fits_template r.template,
      List.forall_mem_singleton.2 (fits_closing (by decide))⟩⟩

theorem fits_audioLines (r : Representation) : ∀ line ∈ r.audioLines, TagFits line.2 := by
  have hnames : (r.audioAttributes.map Prod.fst).Sublist
      ["id", "bandwidth", "codecs", "audioSamplingRate"] := by
    rw [Representation.audioAttributes, List.map_append, List.map_append]
    exact ((List.Sublist.refl _).append (names_given _ _)).append (names_given _ _)
  have hchannel : TagNames "AudioChannelConfiguration" ["schemeIdUri", "value"] := by decide
  have hchannels : ∀ line ∈ r.channelLines, TagFits line.2 := by
    unfold Representation.channelLines
    rw [forall_ite_not_iff, List.forall_mem_singleton]
    exact fun _ => fits_empty hchannel (List.Sublist.refl _)
  exact List.forall_mem_cons.2 ⟨fits_opening (by decide) hnames,
    List.forall_mem_append.2 ⟨List.forall_mem_append.2 ⟨hchannels, fits_template r.template⟩,
      List.forall_mem_singleton.2 (fits_closing (by decide))⟩⟩

theorem fits_adaptation {mimeType : String} {representations : List (List (Nat × Xml.Tag))}
    (h : ∀ lines ∈ representations, ∀ line ∈ lines, TagFits line.2) :
    ∀ line ∈ adaptationLines mimeType representations, TagFits line.2 := by
  have hnames : TagNames "AdaptationSet" ["mimeType", "segmentAlignment", "startWithSAP"] := by decide
  unfold adaptationLines
  rw [forall_ite_not_iff]
  refine fun _ => List.forall_mem_cons.2 ⟨fits_opening hnames (List.Sublist.refl _),
    List.forall_mem_append.2 ⟨fun line hline => ?_, List.forall_mem_singleton.2
      (fits_closing (by decide))⟩⟩
  obtain ⟨lines, hlines, hline⟩ := List.mem_flatten.1 hline
  exact h lines hlines line hline

theorem fits_lines (mpd : Mpd) : ∀ line ∈ mpd.lines, TagFits line.2 := by
  have hnames : TagNames "MPD" ["xmlns", "type", "mediaPresentationDuration", "minBufferTime",
      "profiles"] := by decide
  refine List.forall_mem_cons.2 ⟨fits_opening hnames (List.Sublist.refl _),
    List.forall_mem_append.2 ⟨List.forall_mem_cons.2 ⟨fits_opening (by decide) (List.Sublist.refl _),
      List.forall_mem_append.2 ⟨List.forall_mem_append.2 ⟨fits_adaptation ?_, fits_adaptation ?_⟩,
        List.forall_mem_singleton.2 (fits_closing (by decide))⟩⟩,
      List.forall_mem_singleton.2 (fits_closing (by decide))⟩⟩
  · exact List.forall_mem_map.2 fun r _ => fits_videoLines r
  · exact List.forall_mem_map.2 fun r _ => fits_audioLines r

/-! ## The document -/

/-- The start and end tags on lines. -/
def eventsOf (lines : List (Nat × Xml.Tag)) : List Xml.Event := lines.flatMap fun line => line.2.events

theorem eventsOf_append (as bs : List (Nat × Xml.Tag)) :
    eventsOf (as ++ bs) = eventsOf as ++ eventsOf bs := List.flatMap_append

/-- An element with what is inside of it. -/
theorem eventsOf_element (depth depth' : Nat) (name : String) (as : List (String × String))
    (inner : List (Nat × Xml.Tag)) :
    eventsOf ((depth, openingTag name as) :: (inner ++ [(depth', closingTag name)]))
      = .start name.toList (xmlAttributes as) :: (eventsOf inner ++ [.stop name.toList]) := by
  rw [eventsOf, List.flatMap_cons, List.flatMap_append]
  rfl

theorem balanced_wrap {depth depth' : Nat} {name : String} {as : List (String × String)}
    {inner : List (Nat × Xml.Tag)} (h : Xml.Balanced (eventsOf inner)) :
    Xml.Balanced (eventsOf ((depth, openingTag name as) :: (inner ++ [(depth', closingTag name)]))) := by
  rw [eventsOf_element]
  exact Xml.balanced_element h

theorem balanced_empty (depth : Nat) (name : String) (as : List (String × String)) :
    Xml.Balanced (eventsOf [(depth, emptyTag name as)]) := by
  have helement := @Xml.balanced_element name.toList (xmlAttributes as) [] Xml.balanced_nil
  exact helement

theorem balanced_eventsOf_append {as bs : List (Nat × Xml.Tag)} (ha : Xml.Balanced (eventsOf as))
    (hb : Xml.Balanced (eventsOf bs)) : Xml.Balanced (eventsOf (as ++ bs)) := by
  rw [eventsOf_append]
  exact Xml.balanced_append ha hb

theorem balanced_template (template : SegmentTemplate) : Xml.Balanced (eventsOf template.lines) := by
  cases template with
  | uniform duration initialization media => exact balanced_empty _ _ _
  | timeline initialization durations =>
    have hdurations : Xml.Balanced (eventsOf
        (durations.map fun duration => (6, emptyTag "S" [("d", toString duration)]))) := by
      rw [eventsOf, List.flatMap_map]
      exact Xml.balanced_flatMap fun duration _ => balanced_empty 6 "S" [("d", toString duration)]
    have hlines : (SegmentTemplate.timeline initialization durations).lines
        = (4, openingTag "SegmentTemplate" [("timescale", "1000"), ("startNumber", "0"),
            ("initialization", initialization)]) ::
          (((5, openingTag "SegmentTimeline" []) ::
            (durations.map (fun duration => (6, emptyTag "S" [("d", toString duration)])) ++
              [(5, closingTag "SegmentTimeline")])) ++
            [(4, closingTag "SegmentTemplate")]) := by
      simp [SegmentTemplate.lines]
    rw [hlines]
    exact balanced_wrap (balanced_wrap hdurations)

theorem balanced_channels (r : Representation) : Xml.Balanced (eventsOf r.channelLines) := by
  unfold Representation.channelLines
  split_ifs
  · exact Xml.balanced_nil
  · exact balanced_empty _ _ _

theorem balanced_adaptation {mimeType : String} {representations : List (List (Nat × Xml.Tag))}
    (h : ∀ lines ∈ representations, Xml.Balanced (eventsOf lines)) :
    Xml.Balanced (eventsOf (adaptationLines mimeType representations)) := by
  unfold adaptationLines
  split_ifs
  · exact Xml.balanced_nil
  · refine balanced_wrap ?_
    rw [eventsOf, List.flatten_eq_flatMap, List.flatMap_assoc]
    exact Xml.balanced_flatMap h

/-- Inside of the root. -/
theorem balanced_period (mpd : Mpd) : Xml.Balanced (eventsOf ((1, openingTag "Period" []) ::
    (adaptationLines "video/mp4" (mpd.video.map Representation.videoLines) ++
      adaptationLines "audio/mp4" (mpd.audio.map Representation.audioLines) ++
      [(1, closingTag "Period")]))) := by
  refine balanced_wrap (balanced_eventsOf_append (balanced_adaptation ?_) (balanced_adaptation ?_))
  · exact List.forall_mem_map.2 fun r _ => balanced_wrap (balanced_template r.template)
  · exact List.forall_mem_map.2 fun r _ => balanced_wrap
      (balanced_eventsOf_append (balanced_channels r) (balanced_template r.template))

theorem distinct_of_fits {t : Xml.Tag} (h : TagFits t) : ∀ event ∈ t.events, event.distinct = true := by
  obtain ⟨-, hnodup⟩ := h
  cases t with
  | opening name attributes => exact List.forall_mem_singleton.2 (decide_eq_true hnodup)
  | empty name attributes =>
    exact List.forall_mem_cons.2 ⟨decide_eq_true hnodup, List.forall_mem_singleton.2 rfl⟩
  | closing name => exact List.forall_mem_singleton.2 rfl

/-- **The manifest is a document**, whatever the values of attributes are. -/
theorem document_wellFormed (mpd : Mpd) : Xml.wellFormed mpd.document = true := by
  have helement : mpd.document = .start "MPD".toList (xmlAttributes mpd.attributes) ::
      (eventsOf ((1, openingTag "Period" []) ::
        (adaptationLines "video/mp4" (mpd.video.map Representation.videoLines) ++
          adaptationLines "audio/mp4" (mpd.audio.map Representation.audioLines) ++
          [(1, closingTag "Period")])) ++ [.stop "MPD".toList]) := eventsOf_element 0 0 "MPD" _ _
  have hdistinct : ∀ event ∈ mpd.document, event.distinct = true := by
    intro event hevent
    obtain ⟨line, hline, hevent⟩ := List.mem_flatMap.1 hevent
    exact distinct_of_fits (fits_lines mpd line hline) event hevent
  have hnested : Xml.nested [] mpd.document = true := by
    rw [helement]
    exact Xml.nested_element (balanced_period mpd)
  have hne : mpd.document ≠ [] := by
    rw [helement]
    exact List.cons_ne_nil _ _
  rw [Xml.wellFormed, hnested, List.all_eq_true.2 hdistinct, decide_eq_true hne]
  rfl

/-! ## Representations of the document -/

theorem representationsOf_append (as bs : List Xml.Event) :
    representationsOf (as ++ bs) = representationsOf as ++ representationsOf bs := List.filterMap_append

theorem representationsOf_template (template : SegmentTemplate) :
    representationsOf (eventsOf template.lines) = [] := by
  cases template with
  | uniform duration initialization media => rfl
  | timeline initialization durations =>
    have hdurations : representationsOf (eventsOf
        (durations.map fun duration => (6, emptyTag "S" [("d", toString duration)]))) = [] := by
      induction durations with
      | nil => rfl
      | cons duration durations ih => exact ih
    rw [SegmentTemplate.lines, eventsOf_append, eventsOf_append, representationsOf_append,
      representationsOf_append, hdurations]
    rfl

theorem representationsOf_channels (r : Representation) :
    representationsOf (eventsOf r.channelLines) = [] := by
  unfold Representation.channelLines
  split_ifs <;> rfl

theorem representationsOf_adaptation (mimeType : String) (representations : List (List (Nat × Xml.Tag))) :
    representationsOf (eventsOf (adaptationLines mimeType representations))
      = representations.flatMap fun lines => representationsOf (eventsOf lines) := by
  unfold adaptationLines
  split_ifs with h
  · rw [h]
    rfl
  · have hflatten : representationsOf (eventsOf representations.flatten)
        = representations.flatMap fun lines => representationsOf (eventsOf lines) := by
      rw [eventsOf, List.flatten_eq_flatMap, List.flatMap_assoc, representationsOf, List.filterMap_flatMap]
      rfl
    rw [eventsOf_element, ← hflatten, ← List.cons_append, representationsOf_append]
    exact List.append_nil _

/-- **One representation for each video and audio variant**, with its attributes. -/
theorem representationsOf_document (mpd : Mpd) : representationsOf mpd.document
    = mpd.video.map (fun r => xmlAttributes r.videoAttributes) ++
      mpd.audio.map fun r => xmlAttributes r.audioAttributes := by
  have hvideo : ∀ r : Representation, representationsOf (eventsOf r.videoLines)
      = [xmlAttributes r.videoAttributes] := by
    intro r
    rw [Representation.videoLines, eventsOf_element, ← List.cons_append, representationsOf_append]
    refine (List.append_nil _).trans ?_
    exact congrArg (xmlAttributes r.videoAttributes :: ·) (representationsOf_template r.template)
  have haudio : ∀ r : Representation, representationsOf (eventsOf r.audioLines)
      = [xmlAttributes r.audioAttributes] := by
    intro r
    rw [Representation.audioLines, eventsOf_element, ← List.cons_append, representationsOf_append,
      eventsOf_append]
    refine (List.append_nil _).trans (congrArg (xmlAttributes r.audioAttributes :: ·) ?_)
    exact (representationsOf_append _ _).trans (by
      rw [representationsOf_channels, representationsOf_template]
      rfl)
  have hlines : mpd.document = .start "MPD".toList (xmlAttributes mpd.attributes) ::
      .start "Period".toList [] ::
      (eventsOf (adaptationLines "video/mp4" (mpd.video.map Representation.videoLines) ++
        adaptationLines "audio/mp4" (mpd.audio.map Representation.audioLines)) ++
        [.stop "Period".toList, .stop "MPD".toList]) := by
    have hdocument : mpd.document = eventsOf mpd.lines := rfl
    rw [hdocument, Mpd.lines, eventsOf_element, eventsOf_element]
    simp [xmlAttributes]
  rw [hlines, eventsOf_append, ← List.cons_append, ← List.cons_append, representationsOf_append]
  refine (List.append_nil _).trans ?_
  refine (representationsOf_append _ _).trans ?_
  rw [representationsOf_adaptation, representationsOf_adaptation, List.flatMap_map, List.flatMap_map]
  simp only [hvideo, haudio, List.map_eq_flatMap]

/-! ## Plain values -/

section
variable {name : String} {as : List (String × String)}

theorem plain_xmlAttributes_iff :
    (∀ a ∈ xmlAttributes as, Xml.Plain a.2) ↔ ∀ a ∈ as, XmlPlain a.2 := List.forall_mem_map

theorem plain_opening_iff : (openingTag name as).Plain ↔ ∀ a ∈ as, XmlPlain a.2 :=
  plain_xmlAttributes_iff

theorem plain_empty_iff : (emptyTag name as).Plain ↔ ∀ a ∈ as, XmlPlain a.2 := plain_xmlAttributes_iff

theorem plain_closing : (closingTag name).Plain := nofun

end

theorem xmlPlain_empty : XmlPlain "" := Xml.plain_nil

theorem xmlPlain_append_iff {s t : String} : XmlPlain (s ++ t) ↔ XmlPlain s ∧ XmlPlain t := by
  rw [XmlPlain, String.toList_append, Xml.plain_append]
  rfl

theorem xmlPlain_number (n : Nat) : XmlPlain (toString n) := by
  intro c hc
  obtain ⟨h0, h9⟩ := Decimal.digit_of_mem_toString hc
  have hne : ∀ d : Char, d.toNat < 48 ∨ 57 < d.toNat → c ≠ d := by
    rintro d hd rfl
    omega
  refine ⟨?_, hne _ (by decide), hne _ (by decide), hne _ (by decide), fun hblank => ?_⟩
  · simp only [Xml.isXmlChar, Bool.or_eq_true, Bool.and_eq_true, decide_eq_true_eq]
    exact .inr ⟨⟨by omega, by omega⟩, by omega⟩
  · simp only [Xml.isBlank, Bool.or_eq_true, decide_eq_true_eq] at hblank
    rcases hblank with ((rfl | rfl) | rfl) | rfl
    · rfl
    all_goals simp at h0

theorem plain_given_iff {name value : String} :
    (∀ a ∈ given name value, XmlPlain a.2) ↔ XmlPlain value := by
  unfold given
  rw [forall_ite_not_iff, List.forall_mem_singleton]
  by_cases h : value = ""
  · rw [h]
    exact iff_of_true (fun hne => absurd rfl hne) xmlPlain_empty
  · exact ⟨fun hplain => hplain h, fun hplain _ => hplain⟩

/-- The URLs of a template are plain. -/
def SegmentTemplate.Plain : SegmentTemplate → Prop
  | .uniform _ initialization media => XmlPlain initialization ∧ XmlPlain media
  | .timeline initialization _ => XmlPlain initialization

theorem plain_template_iff {template : SegmentTemplate} :
    (∀ line ∈ template.lines, line.2.Plain) ↔ template.Plain := by
  have hscale : XmlPlain "1000" := by rw [XmlPlain, Xml.Plain]; decide
  have hzero : XmlPlain "0" := by rw [XmlPlain, Xml.Plain]; decide
  cases template with
  | uniform duration initialization media =>
    unfold SegmentTemplate.lines
    rw [List.forall_mem_singleton, plain_empty_iff]
    simp only [List.forall_mem_cons, hscale, hzero, xmlPlain_number, true_and]
    exact ⟨fun h => ⟨h.1, h.2.1⟩, fun h => ⟨h.1, h.2, nofun⟩⟩
  | timeline initialization durations =>
    unfold SegmentTemplate.lines
    rw [List.forall_mem_append, List.forall_mem_append, List.forall_mem_cons, List.forall_mem_map,
      plain_opening_iff]
    simp only [List.forall_mem_cons, hscale, hzero, true_and, plain_opening_iff, plain_empty_iff]
    constructor
    · exact fun h => h.1.1.1.1
    · intro h
      exact ⟨⟨⟨⟨h, nofun⟩, nofun, nofun⟩, fun duration _ => ⟨xmlPlain_number duration, nofun⟩⟩,
        plain_closing, plain_closing, nofun⟩

theorem plain_videoLines_iff {r : Representation} : (∀ line ∈ r.videoLines, line.2.Plain) ↔
    (XmlPlain r.variant.variantId ∧ XmlPlain r.variant.codec ∧ r.template.Plain) ∧
      XmlPlain r.variant.frameRate := by
  have hsize : ∀ a ∈ (if 0 < r.variant.width ∧ 0 < r.variant.height then
      [("width", toString r.variant.width), ("height", toString r.variant.height)] else []),
      XmlPlain a.2 := by
    rw [forall_ite_iff]
    exact fun _ => List.forall_mem_cons.2 ⟨xmlPlain_number _, List.forall_mem_singleton.2
      (xmlPlain_number _)⟩
  unfold Representation.videoLines
  rw [List.forall_mem_cons, plain_opening_iff, Representation.videoAttributes, List.forall_mem_append,
    List.forall_mem_append, List.forall_mem_append, plain_given_iff, plain_given_iff,
    List.forall_mem_append, plain_template_iff, List.forall_mem_cons, List.forall_mem_singleton,
    List.forall_mem_singleton]
  exact ⟨fun ⟨⟨⟨⟨⟨hid, _⟩, _⟩, hcodec⟩, hrate⟩, htemplate, _⟩ => ⟨⟨hid, hcodec, htemplate⟩, hrate⟩,
    fun ⟨⟨hid, hcodec, htemplate⟩, hrate⟩ =>
      ⟨⟨⟨⟨⟨hid, xmlPlain_number _⟩, hsize⟩, hcodec⟩, hrate⟩, htemplate, plain_closing⟩⟩

theorem plain_audioLines_iff {r : Representation} : (∀ line ∈ r.audioLines, line.2.Plain) ↔
    (XmlPlain r.variant.variantId ∧ XmlPlain r.variant.codec ∧ r.template.Plain) ∧
      XmlPlain r.variant.sampleRate ∧ XmlPlain r.variant.channels := by
  have hscheme : XmlPlain channelScheme := by rw [XmlPlain, Xml.Plain, channelScheme]; decide
  have hchannels : (∀ line ∈ r.channelLines, line.2.Plain) ↔ XmlPlain r.variant.channels := by
    unfold Representation.channelLines
    rw [forall_ite_not_iff, List.forall_mem_singleton, plain_empty_iff, List.forall_mem_cons,
      List.forall_mem_singleton]
    by_cases h : r.variant.channels = ""
    · rw [h]
      exact iff_of_true (fun hne => absurd rfl hne) xmlPlain_empty
    · exact ⟨fun hplain => (hplain h).2, fun hplain _ => ⟨hscheme, hplain⟩⟩
  unfold Representation.audioLines
  rw [List.forall_mem_cons, plain_opening_iff, Representation.audioAttributes, List.forall_mem_append,
    List.forall_mem_append, plain_given_iff, plain_given_iff, List.forall_mem_append,
    List.forall_mem_append, hchannels, plain_template_iff, List.forall_mem_cons,
    List.forall_mem_singleton, List.forall_mem_singleton]
  exact ⟨fun ⟨⟨⟨⟨hid, _⟩, hcodec⟩, hrate⟩, ⟨hchannel, htemplate⟩, _⟩ =>
      ⟨⟨hid, hcodec, htemplate⟩, hrate, hchannel⟩,
    fun ⟨⟨hid, hcodec, htemplate⟩, hrate, hchannel⟩ =>
      ⟨⟨⟨⟨hid, xmlPlain_number _⟩, hcodec⟩, hrate⟩, ⟨hchannel, htemplate⟩, plain_closing⟩⟩

theorem plain_adaptation_iff {mimeType : String} (hmime : XmlPlain mimeType)
    {representations : List (List (Nat × Xml.Tag))} :
    (∀ line ∈ adaptationLines mimeType representations, line.2.Plain) ↔
      ∀ lines ∈ representations, ∀ line ∈ lines, line.2.Plain := by
  have htrue : XmlPlain "true" := by rw [XmlPlain, Xml.Plain]; decide
  have hone : XmlPlain "1" := by rw [XmlPlain, Xml.Plain]; decide
  unfold adaptationLines
  rw [forall_ite_not_iff]
  by_cases h : representations = []
  · rw [h]
    exact iff_of_true (fun hne => absurd rfl hne) nofun
  · rw [List.forall_mem_cons, List.forall_mem_append, List.forall_mem_singleton, plain_opening_iff]
    constructor
    · intro hplain lines hlines line hline
      exact (hplain h).2.1 line (List.mem_flatten.2 ⟨lines, hlines, hline⟩)
    · refine fun hplain _ => ⟨?_, fun line hline => ?_, plain_closing⟩
      · simp only [List.forall_mem_cons, hmime, htrue, hone, true_and]
        exact nofun
      · obtain ⟨lines, hlines, hline⟩ := List.mem_flatten.1 hline
        exact hplain lines hlines line hline

theorem plain_lines_iff {mpd : Mpd} : (∀ line ∈ mpd.lines, line.2.Plain) ↔ XmlPlain mpd.duration ∧
    (∀ r ∈ mpd.video, ∀ line ∈ r.videoLines, line.2.Plain) ∧
    ∀ r ∈ mpd.audio, ∀ line ∈ r.audioLines, line.2.Plain := by
  have hfixed : ∀ s ∈ ["urn:mpeg:dash:schema:mpd:2011", "static", "PT2S",
      "urn:mpeg:dash:profile:isoff-on-demand:2011", "video/mp4", "audio/mp4"], XmlPlain s := by
    unfold XmlPlain Xml.Plain
    decide
  unfold Mpd.lines
  rw [List.forall_mem_cons, List.forall_mem_append, List.forall_mem_cons, List.forall_mem_append,
    List.forall_mem_append, plain_adaptation_iff (hfixed _ (by simp)),
    plain_adaptation_iff (hfixed _ (by simp)), List.forall_mem_map, List.forall_mem_map,
    plain_opening_iff, plain_opening_iff, List.forall_mem_singleton, List.forall_mem_singleton,
    Mpd.attributes]
  simp only [List.forall_mem_cons]
  exact ⟨fun ⟨⟨_, _, hduration, _⟩, ⟨_, ⟨hvideo, haudio⟩, _⟩, _⟩ => ⟨hduration, hvideo, haudio⟩,
    fun ⟨hduration, hvideo, haudio⟩ => ⟨⟨hfixed _ (by simp), hfixed _ (by simp), hduration,
      hfixed _ (by simp), hfixed _ (by simp), nofun⟩, ⟨nofun, ⟨hvideo, haudio⟩, plain_closing⟩,
      plain_closing⟩⟩

/-! ## Fields -/

theorem xmlPlain_mediaUrl_iff {baseUrl key : String} :
    XmlPlain (mediaUrl baseUrl key) ↔ XmlPlain baseUrl ∧ XmlPlain key := by
  have hslash : Xml.isXmlChar '/' = true ∧ '/' ≠ '"' ∧ '/' ≠ '<' ∧ '/' ≠ '&' ∧
      (Xml.isBlank '/' = true → '/' = ' ') := by decide
  have hpath : XmlPlain "/v1/media/" := by unfold XmlPlain Xml.Plain; decide
  have hurl : mediaUrl baseUrl key = if baseUrl = "" then "/v1/media/" ++ key
      else trimEndSlashes baseUrl ++ ("/v1/media/" ++ key) := by
    rw [mediaUrl]
    split_ifs
    · rfl
    · simp only [toString, String.append_assoc]
  rw [hurl]
  refine (forall_below_iff hslash).trans (and_congr_right fun _ => ?_)
  exact xmlPlain_append_iff.trans (and_iff_right hpath)

theorem plain_mediaTemplate_iff {first : SegmentInfo ℚ} {rest : List (SegmentInfo ℚ)} {baseUrl : String}
    (hbase : XmlPlain baseUrl) : XmlPlain (segmentMediaTemplate (first :: rest) baseUrl) ↔
      ∀ part ∈ templateParts first.key, XmlPlain part := by
  have hnumber : XmlPlain numberFormat := by unfold XmlPlain Xml.Plain; decide
  have hdot : XmlPlain "." := by unfold XmlPlain Xml.Plain; decide
  unfold segmentMediaTemplate templateParts
  dsimp only
  cases Replace.rfind? "/seg-".toList first.key.toList with
  | none => exact iff_of_true xmlPlain_empty nofun
  | some segPos =>
    dsimp only
    rw [xmlPlain_mediaUrl_iff, xmlPlain_append_iff, xmlPlain_append_iff, xmlPlain_append_iff,
      List.forall_mem_cons, List.forall_mem_singleton]
    exact ⟨fun ⟨_, ⟨⟨hpath, _⟩, _⟩, hext⟩ => ⟨hpath, hext⟩,
      fun ⟨hpath, hext⟩ => ⟨hbase, ⟨⟨hpath, hnumber⟩, hdot⟩, hext⟩⟩

theorem plain_segmentTemplate_iff {initKey baseUrl : String} {segments : List (SegmentInfo ℚ)} :
    (dashSegmentTemplate initKey baseUrl segments).Plain ↔ (XmlPlain baseUrl ∧ XmlPlain initKey) ∧
      ∀ first rest, segments = first :: rest → allUniform (first :: rest) = true →
        ∀ part ∈ templateParts first.key, XmlPlain part := by
  unfold dashSegmentTemplate
  cases segments with
  | nil => exact xmlPlain_mediaUrl_iff.trans (and_iff_left nofun).symm
  | cons first rest =>
    dsimp only
    split_ifs with huniform
    · rw [SegmentTemplate.Plain, xmlPlain_mediaUrl_iff]
      refine and_congr_right fun hplain => ?_
      rw [plain_mediaTemplate_iff hplain.1]
      constructor
      · rintro h first' rest' heq -
        cases heq
        exact h
      · exact fun h => h first rest rfl huniform
    · rw [SegmentTemplate.Plain, xmlPlain_mediaUrl_iff]
      refine (and_iff_left ?_).symm
      intro first' rest' heq huniform'
      exact absurd (heq ▸ huniform') huniform

theorem xmlPlain_duration {ops : DashOps} (hops : ∀ q, XmlPlain (ops.fixed1 q)) (seconds : ℚ) :
    XmlPlain (formatIsoDuration ops seconds) := by
  have hfixed : ∀ s ∈ ["PT", "H", "M", "S"], XmlPlain s := by
    unfold XmlPlain Xml.Plain
    decide
  unfold formatIsoDuration
  dsimp only
  split_ifs
  · refine xmlPlain_append_iff.2 ⟨xmlPlain_append_iff.2 ⟨xmlPlain_append_iff.2 ⟨xmlPlain_append_iff.2
      ⟨xmlPlain_append_iff.2 ⟨xmlPlain_append_iff.2 ⟨?_, ?_⟩, ?_⟩, ?_⟩, ?_⟩, ?_⟩, ?_⟩
    · exact hfixed "PT" (by simp)
    · exact xmlPlain_number _
    · exact hfixed "H" (by simp)
    · exact xmlPlain_number _
    · exact hfixed "M" (by simp)
    · exact hops _
    · exact hfixed "S" (by simp)
  · refine xmlPlain_append_iff.2 ⟨xmlPlain_append_iff.2 ⟨xmlPlain_append_iff.2 ⟨xmlPlain_append_iff.2
      ⟨?_, ?_⟩, ?_⟩, ?_⟩, ?_⟩
    · exact hfixed "PT" (by simp)
    · exact xmlPlain_number _
    · exact hfixed "M" (by simp)
    · exact hops _
    · exact hfixed "S" (by simp)
  · refine xmlPlain_append_iff.2 ⟨xmlPlain_append_iff.2 ⟨?_, ?_⟩, ?_⟩
    · exact hfixed "PT" (by simp)
    · exact hops _
    · exact hfixed "S" (by simp)

section
variable {ops : DashOps} {baseUrl : String} {variants : List VariantInfo}
  {segmentsByVariant : List (String × List (SegmentInfo ℚ))}

/-- What the plainness of a representation comes down to. -/
theorem plain_representation_iff {v : VariantInfo} :
    (XmlPlain v.variantId ∧ XmlPlain v.codec ∧
      (dashSegmentTemplate v.initKey baseUrl ((segmentsByVariant.lookup v.variantId).getD [])).Plain) ↔
      PlainRepresentation baseUrl segmentsByVariant v := by
  rw [plain_segmentTemplate_iff]
  exact ⟨fun ⟨hid, hcodec, ⟨hbase, hinit⟩, hsegments⟩ => ⟨hid, hcodec, hinit, hbase, hsegments⟩,
    fun h => ⟨h.variantId, h.codec, ⟨h.base, h.initKey⟩, h.segments⟩⟩

/-- **The manifest is read back** exactly if its fields are plain. -/
theorem mpd_iff (hops : ∀ q, XmlPlain (ops.fixed1 q)) :
    Xml.read (generateDashMpd ops variants segmentsByVariant baseUrl).render.toList
        = some (generateDashMpd ops variants segmentsByVariant baseUrl).document ↔
      PlainMpd baseUrl variants segmentsByVariant := by
  generalize hmpd : generateDashMpd ops variants segmentsByVariant baseUrl = mpd
  have hread := Xml.read_written_iff (fun line hline => (fits_lines mpd line hline).1)
    (document_wellFormed mpd)
  have hduration : XmlPlain mpd.duration := by
    rw [← hmpd]
    exact xmlPlain_duration hops _
  have hfilter : ∀ (t : String) (P : VariantInfo → Prop),
      (∀ v ∈ variants.filter (fun v => v.mediaType = t), P v) ↔ ∀ v ∈ variants, v.mediaType = t → P v := by
    intro t P
    simp only [List.mem_filter, decide_eq_true_eq, and_imp]
  rw [render_text]
  refine hread.trans (plain_lines_iff.trans ((and_iff_right hduration).trans ?_))
  rw [← hmpd, generateDashMpd]
  dsimp only
  rw [List.forall_mem_map, List.forall_mem_map, hfilter, hfilter]
  simp only [plain_videoLines_iff, plain_audioLines_iff, plain_representation_iff]
  exact ⟨fun h => ⟨h.1, h.2⟩, fun h => ⟨h.video, h.audio⟩⟩

end

/-! ## Both playlists -/

/-- **Metadata does not change the structure of a playlist** exactly if the fields that are put into it
are plain for its format. -/
theorem playlists_read_back_iff (ops : DashOps) (hops : ∀ q, XmlPlain (ops.fixed1 q))
    (baseUrl streamId : String) (variants : List VariantInfo)
    (segmentsByVariant : List (String × List (SegmentInfo ℚ))) :
    ReadBack ops baseUrl streamId variants segmentsByVariant ↔
      PlainMaster baseUrl streamId variants ∧ PlainMpd baseUrl variants segmentsByVariant :=
  ⟨fun h => ⟨master_iff.1 h.master, (mpd_iff hops).1 h.mpd⟩,
    fun h => ⟨master_iff.2 h.1, (mpd_iff hops).2 h.2⟩⟩

theorem fixed1_exactSeconds (q : ℚ) : XmlPlain (exactSeconds.fixed1 q) := by
  have hsign : XmlPlain "-" := by unfold XmlPlain Xml.Plain; decide
  have hzero : XmlPlain ".0" := by unfold XmlPlain Xml.Plain; decide
  show XmlPlain (toString ⌊q⌋ ++ ".0")
  refine xmlPlain_append_iff.2 ⟨?_, hzero⟩
  cases ⌊q⌋ with
  | ofNat n => exact xmlPlain_number n
  | negSucc n => exact xmlPlain_append_iff.2 ⟨hsign, xmlPlain_number (n + 1)⟩

/-- A variant whose codec is this text. -/
def codecVariant (codec : String) : VariantInfo :=
  ⟨"720p", "streams/clip/variants/720p/init.mp4", codec, 2000, 1280, 720, "video", "", "30", "", ""⟩

theorem playlists_read_back_iff_clip :
    ReadBack exactSeconds "" "clip" [codecVariant "avc1.64001f"] [("720p", [⟨"a/seg-0.m4s", 0, 4⟩])] ↔
      PlainMaster "" "clip" [codecVariant "avc1.64001f"] ∧
        PlainMpd "" [codecVariant "avc1.64001f"] [("720p", [⟨"a/seg-0.m4s", 0, 4⟩])] :=
  playlists_read_back_iff exactSeconds fixed1_exactSeconds "" "clip" [codecVariant "avc1.64001f"]
    [("720p", [⟨"a/seg-0.m4s", 0, 4⟩])]

/-- A codec with a quote and a line end spoils both playlists. -/
theorem playlist_injection : ¬ ∀ (ops : DashOps), (∀ q, XmlPlain (ops.fixed1 q)) →
    ∀ (baseUrl streamId : String) (variants : List VariantInfo)
      (segmentsByVariant : List (String × List (SegmentInfo ℚ))),
    M3u8.read [mediaTag, streamInfTag] (generateHlsMaster baseUrl streamId variants).toList
        = masterLines baseUrl streamId variants ∨
      Xml.read (generateDashMpd ops variants segmentsByVariant baseUrl).render.toList
        = some (generateDashMpd ops variants segmentsByVariant baseUrl).document := by
  intro h
  let v := codecVariant "x\"\n#EXT-X-STREAM-INF:BANDWIDTH=1\n/other.m3u8\n#"
  have hquote : '"' ∈ v.codec.toList := by decide
  rcases h exactSeconds fixed1_exactSeconds "" "clip" [v] [] with hmaster | hmpd
  · have hplain := ((master_iff.1 hmaster).video v List.mem_cons_self rfl).1.codec
    exact (hplain '"' hquote).1 rfl
  · have hplain := (((mpd_iff fixed1_exactSeconds).1 hmpd).video v List.mem_cons_self rfl).1.codec
    exact (hplain '"' hquote).2.1 rfl

end KaidaDB
