import KaidaDB.Api.Dash
import KaidaDB.Api.Hls
import KaidaDB.Lib.M3u8
import KaidaDB.Lib.Xml

/-!
# What a playlist is to be read as

The two playlists of a stream are texts that the fields of the variants are put into. `ReadBack` says
that a reader of the format finds in each what the variants say, in order, and nothing else.
-/

namespace KaidaDB

open Replace

/-! ## HLS -/

def attr (name : String) (value : M3u8.Value) : M3u8.Attribute := (name.toList, value)

def quotedValue (s : String) : M3u8.Value := .quoted s.toList

def bareValue (s : String) : M3u8.Value := .bare s.toList

def mediaTag : List Char := "#EXT-X-MEDIA".toList

def streamInfTag : List Char := "#EXT-X-STREAM-INF".toList

section
variable (baseUrl streamId : String)

namespace VariantInfo

def audioAttributes (v : VariantInfo) : List M3u8.Attribute :=
  [attr "TYPE" (bareValue "AUDIO"), attr "GROUP-ID" (quotedValue "audio"),
    attr "NAME" (quotedValue v.trackName), attr "LANGUAGE" (quotedValue v.lang),
    attr "DEFAULT" (bareValue "YES"), attr "URI" (quotedValue (v.playlistUrl baseUrl streamId))]

def subtitleAttributes (v : VariantInfo) : List M3u8.Attribute :=
  [attr "TYPE" (bareValue "SUBTITLES"), attr "GROUP-ID" (quotedValue "subs"),
    attr "NAME" (quotedValue v.lang), attr "LANGUAGE" (quotedValue v.lang),
    attr "DEFAULT" (bareValue "NO"), attr "URI" (quotedValue (v.playlistUrl baseUrl streamId))]

def codecAttributes (v : VariantInfo) : List M3u8.Attribute :=
  if v.codec = "" then [] else [attr "CODECS" (quotedValue v.codec)]

def videoAttributes (hasAudio hasSubtitles : Bool) (v : VariantInfo) : List M3u8.Attribute :=
  attr "BANDWIDTH" (bareValue (toString v.bandwidth)) ::
    ((if 0 < v.width ∧ 0 < v.height then
        [attr "RESOLUTION" (bareValue s!"{v.width}x{v.height}")] else []) ++
      v.codecAttributes ++
      (if v.frameRate = "" then [] else [attr "FRAME-RATE" (bareValue v.frameRate)]) ++
      (if hasAudio then [attr "AUDIO" (quotedValue "audio")] else []) ++
      (if hasSubtitles then [attr "SUBTITLES" (quotedValue "subs")] else []))

def soundAttributes (v : VariantInfo) : List M3u8.Attribute :=
  attr "BANDWIDTH" (bareValue (toString v.bandwidth)) :: v.codecAttributes

end VariantInfo

/-- A line for each track, and two lines for each variant to choose from. -/
def masterLines (variants : List VariantInfo) : List M3u8.Line :=
  let audio := variants.filter fun v => v.mediaType = "audio"
  let video := variants.filter fun v => v.mediaType = "video"
  let subtitle := variants.filter fun v => v.mediaType = "subtitle"
  let stream := fun (v : VariantInfo) (attributes : List M3u8.Attribute) =>
    [M3u8.Line.tag streamInfTag (some attributes), .uri (v.playlistUrl baseUrl streamId).toList]
  audio.map (fun v => .tag mediaTag (some (v.audioAttributes baseUrl streamId))) ++
    subtitle.map (fun v => .tag mediaTag (some (v.subtitleAttributes baseUrl streamId))) ++
    if video = [] then audio.flatMap fun v => stream v v.soundAttributes
    else video.flatMap fun v => stream v (v.videoAttributes (audio ≠ []) (subtitle ≠ []))

end

/-! ## DASH -/

def xmlAttributes (attributes : List (String × String)) : List Xml.Attribute :=
  attributes.map fun a => (a.1.toList, a.2.toList)

def openingTag (name : String) (attributes : List (String × String)) : Xml.Tag :=
  .opening name.toList (xmlAttributes attributes)

def emptyTag (name : String) (attributes : List (String × String)) : Xml.Tag :=
  .empty name.toList (xmlAttributes attributes)

def closingTag (name : String) : Xml.Tag := .closing name.toList

/-- The tags on the lines of a template, at their depths. -/
def SegmentTemplate.lines : SegmentTemplate → List (Nat × Xml.Tag)
  | .uniform duration initialization media =>
    [(4, emptyTag "SegmentTemplate" [("timescale", "1000"), ("duration", toString duration),
      ("startNumber", "0"), ("initialization", initialization), ("media", media)])]
  | .timeline initialization durations =>
    [(4, openingTag "SegmentTemplate" [("timescale", "1000"), ("startNumber", "0"),
        ("initialization", initialization)]),
      (5, openingTag "SegmentTimeline" [])] ++
    durations.map (fun duration => (6, emptyTag "S" [("d", toString duration)])) ++
    [(5, closingTag "SegmentTimeline"), (4, closingTag "SegmentTemplate")]

/-- None, without a value. -/
def given (name value : String) : List (String × String) := if value = "" then [] else [(name, value)]

namespace Representation

def videoAttributes (r : Representation) : List (String × String) :=
  [("id", r.variant.variantId), ("bandwidth", toString r.variant.bandwidth)] ++
    (if 0 < r.variant.width ∧ 0 < r.variant.height then
      [("width", toString r.variant.width), ("height", toString r.variant.height)] else []) ++
    given "codecs" r.variant.codec ++ given "frameRate" r.variant.frameRate

def audioAttributes (r : Representation) : List (String × String) :=
  [("id", r.variant.variantId), ("bandwidth", toString r.variant.bandwidth)] ++
    given "codecs" r.variant.codec ++ given "audioSamplingRate" r.variant.sampleRate

def channelLines (r : Representation) : List (Nat × Xml.Tag) :=
  if r.variant.channels = "" then []
  else [(4, emptyTag "AudioChannelConfiguration"
    [("schemeIdUri", channelScheme), ("value", r.variant.channels)])]

def videoLines (r : Representation) : List (Nat × Xml.Tag) :=
  (3, openingTag "Representation" r.videoAttributes) ::
    (r.template.lines ++ [(3, closingTag "Representation")])

def audioLines (r : Representation) : List (Nat × Xml.Tag) :=
  (3, openingTag "Representation" r.audioAttributes) ::
    (r.channelLines ++ r.template.lines ++ [(3, closingTag "Representation")])

end Representation

def adaptationLines (mimeType : String) (representations : List (List (Nat × Xml.Tag))) :
    List (Nat × Xml.Tag) :=
  if representations = [] then []
  else (2, openingTag "AdaptationSet"
      [("mimeType", mimeType), ("segmentAlignment", "true"), ("startWithSAP", "1")]) ::
    (representations.flatten ++ [(2, closingTag "AdaptationSet")])

namespace Mpd

def attributes (mpd : Mpd) : List (String × String) :=
  [("xmlns", "urn:mpeg:dash:schema:mpd:2011"), ("type", "static"),
    ("mediaPresentationDuration", mpd.duration), ("minBufferTime", "PT2S"),
    ("profiles", "urn:mpeg:dash:profile:isoff-on-demand:2011")]

/-- The tags on the lines of the manifest, at their depths. -/
def lines (mpd : Mpd) : List (Nat × Xml.Tag) :=
  (0, openingTag "MPD" mpd.attributes) ::
    ((1, openingTag "Period" []) ::
      (adaptationLines "video/mp4" (mpd.video.map Representation.videoLines) ++
        adaptationLines "audio/mp4" (mpd.audio.map Representation.audioLines) ++
        [(1, closingTag "Period")]) ++
      [(0, closingTag "MPD")])

/-- The manifest as a document. -/
def document (mpd : Mpd) : List Xml.Event := mpd.lines.flatMap fun line => line.2.events

end Mpd

/-- The attributes of the representations in a document. -/
def representationsOf (document : List Xml.Event) : List (List Xml.Attribute) :=
  document.filterMap fun
    | .start name attributes => if name = "Representation".toList then some attributes else none
    | .stop _ => none

/-! ## Reading back -/

section
variable (ops : DashOps) (baseUrl streamId : String) (variants : List VariantInfo)
  (segmentsByVariant : List (String × List (SegmentInfo ℚ)))

/-- The playlists say what they are to say. -/
structure ReadBack : Prop where
  master : M3u8.read [mediaTag, streamInfTag] (generateHlsMaster baseUrl streamId variants).toList
    = masterLines baseUrl streamId variants
  mpd : Xml.read (generateDashMpd ops variants segmentsByVariant baseUrl).render.toList
    = some (generateDashMpd ops variants segmentsByVariant baseUrl).document

/-! ## What may stand in playlists -/

/-- The text may stand on a line. -/
def Unbroken (s : String) : Prop := ∀ c ∈ s.toList, M3u8.isBreak c = false

/-- The text may stand between quotes. -/
def Quotable (s : String) : Prop := ∀ c ∈ s.toList, c ≠ '"' ∧ M3u8.isBreak c = false

/-- The text may stand for a value without quotes, or is left out. -/
def Unquoted (s : String) : Prop :=
  s.toList.head? ≠ some '"' ∧ ∀ c ∈ s.toList, c ≠ ',' ∧ M3u8.isBreak c = false

/-- The text may stand in XML. -/
def XmlPlain (s : String) : Prop := Xml.Plain s.toList

/-- The fields of a track may stand in its line. -/
structure PlainTrack (v : VariantInfo) : Prop where
  language : Quotable v.language
  variantId : Quotable v.variantId
  stream : Quotable streamId
  base : Quotable baseUrl

/-- The fields of a variant to choose from may stand in its two lines. -/
structure PlainStream (v : VariantInfo) : Prop where
  codec : Quotable v.codec
  variantId : Unbroken v.variantId
  stream : Unbroken streamId
  base : Unbroken baseUrl
  noTag : startsWith baseUrl "#" = false

structure PlainMaster : Prop where
  tracks : ∀ v ∈ variants, v.mediaType = "audio" ∨ v.mediaType = "subtitle" →
    PlainTrack baseUrl streamId v
  video : ∀ v ∈ variants, v.mediaType = "video" →
    PlainStream baseUrl streamId v ∧ Unquoted v.frameRate
  audioOnly : (∀ v ∈ variants, v.mediaType ≠ "video") → ∀ v ∈ variants, v.mediaType = "audio" →
    PlainStream baseUrl streamId v

/-- The parts of a segment's key that go into the template. -/
def templateParts (key : String) : List String :=
  match rfind? "/seg-".toList key.toList with
  | none => []
  | some segPos => [String.ofList (key.toList.take (segPos + 5)), extension key]

structure PlainRepresentation (v : VariantInfo) : Prop where
  variantId : XmlPlain v.variantId
  codec : XmlPlain v.codec
  initKey : XmlPlain v.initKey
  base : XmlPlain baseUrl
  /-- The template is made from the first segment, if it is one. -/
  segments : ∀ first rest, (segmentsByVariant.lookup v.variantId).getD [] = first :: rest →
    allUniform (first :: rest) = true → ∀ part ∈ templateParts first.key, XmlPlain part

structure PlainMpd : Prop where
  video : ∀ v ∈ variants, v.mediaType = "video" →
    PlainRepresentation baseUrl segmentsByVariant v ∧ XmlPlain v.frameRate
  audio : ∀ v ∈ variants, v.mediaType = "audio" →
    PlainRepresentation baseUrl segmentsByVariant v ∧ XmlPlain v.sampleRate ∧ XmlPlain v.channels

end

end KaidaDB
