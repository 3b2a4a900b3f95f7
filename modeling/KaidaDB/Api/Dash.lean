import Mathlib.Data.Rat.Floor
import KaidaDB.Lib.Replace
import KaidaDB.Api.Discovery

/-!
# The DASH manifest

`get_dash_mpd` lists the variants of a stream with the segments that `discover_segments` finds for each.
The manifest does not list URLs of segments: it has one template for a variant, in which a player
replaces `$Number%06d$` by the number of a segment (`SegmentTemplate.url`). The source writes its text
at once; here `generateDashMpd` gives what it is made of and `Mpd.render` the text. Durations are exact.
-/

namespace KaidaDB

open Replace

/-- The operations on `f64` that the manifest uses besides. -/
structure DashOps extends FloatOps ℚ where
  /-- The format `:.1`. -/
  fixed1 : ℚ → String

/-- `as u64`, which saturates. -/
def asU64 (q : ℚ) : Nat := min ⌊q⌋.toNat (2 ^ 64 - 1)

/-- `%` on `f64`, with the sign of the dividend. -/
def truncMod (a b : ℚ) : ℚ := a - b * (if 0 ≤ a / b then ⌊a / b⌋ else ⌈a / b⌉ : ℤ)

def formatIsoDuration (ops : DashOps) (seconds : ℚ) : String :=
  let hours := asU64 (seconds / 3600)
  let mins := asU64 (truncMod seconds 3600 / 60)
  let secs := ops.fixed1 (truncMod seconds 60)
  if 0 < hours then s!"PT{hours}H{mins}M{secs}S"
  else if 0 < mins then s!"PT{mins}M{secs}S"
  else s!"PT{secs}S"

/-! ## The template of a variant -/

/-- What stands for the number of a segment. -/
def numberFormat : String := "$Number%06d$"

/-- A number in the format `%06d`. -/
def paddedNumber (number : Nat) : List Char := List.leftpad 6 '0' (toString number).toList

inductive SegmentTemplate where
  | uniform (duration : Nat) (initialization media : String)
  | timeline (initialization : String) (durations : List Nat)
deriving DecidableEq, Repr

/-- The URL that a player asks for, with the `startNumber` that both forms have. -/
def SegmentTemplate.url (i : Nat) : SegmentTemplate → Option String
  | .uniform _ _ media =>
    some (String.ofList (replaceAll numberFormat.toList (paddedNumber (0 + i)) media.toList))
  -- there is no `media` attribute
  | .timeline _ _ => none

def SegmentTemplate.render : SegmentTemplate → String
  | .uniform duration initialization media =>
    s!"        <SegmentTemplate timescale=\"1000\" duration=\"{duration}\" startNumber=\"0\"" ++
      s!" initialization=\"{initialization}\" media=\"{media}\"/>\n"
  | .timeline initialization durations =>
    s!"        <SegmentTemplate timescale=\"1000\" startNumber=\"0\"" ++
      s!" initialization=\"{initialization}\">\n          <SegmentTimeline>\n" ++
      String.join (durations.map fun duration => s!"            <S d=\"{duration}\"/>\n") ++
      "          </SegmentTimeline>\n        </SegmentTemplate>\n"

section
variable {F : Type}

/-- `str::rsplit('.').next()`. -/
def extension (key : String) : String :=
  String.ofList (key.toList.reverse.takeWhile (· ≠ '.')).reverse

def segmentMediaTemplate (segments : List (SegmentInfo F)) (baseUrl : String) : String :=
  match segments with
  | [] => ""
  | first :: _ =>
    match rfind? "/seg-".toList first.key.toList with
    | none => ""
    | some segPos =>
      -- includes "/seg-"
      let basePath := String.ofList (first.key.toList.take (segPos + 5))
      mediaUrl baseUrl (basePath ++ numberFormat ++ "." ++ extension first.key)

end

/-- Check if all segments have uniform duration. -/
def allUniform (segments : List (SegmentInfo ℚ)) : Bool :=
  segments.length ≤ 1 ||
    (segments.zip segments.tail).all fun w => |w.1.duration - w.2.duration| < 1 / 100

def durationMs (segment : SegmentInfo ℚ) : Nat := asU64 (segment.duration * 1000)

def dashSegmentTemplate (initKey baseUrl : String) (segments : List (SegmentInfo ℚ)) :
    SegmentTemplate :=
  let initUrl := mediaUrl baseUrl initKey
  match segments with
  | [] => .timeline initUrl []
  | first :: rest =>
    if allUniform (first :: rest) then
      .uniform (durationMs first) initUrl (segmentMediaTemplate (first :: rest) baseUrl)
    else .timeline initUrl ((first :: rest).map durationMs)

/-! ## The manifest -/

structure Representation where
  variant : VariantInfo
  template : SegmentTemplate

structure Mpd where
  duration : String
  video : List Representation
  audio : List Representation

def Mpd.representations (mpd : Mpd) : List Representation := mpd.video ++ mpd.audio

section
variable (ops : DashOps)

def generateDashMpd (variants : List VariantInfo)
    (segmentsByVariant : List (String × List (SegmentInfo ℚ))) (baseUrl : String) : Mpd :=
  let total := (segmentsByVariant.head?.map fun p => (p.2.map SegmentInfo.duration).sum).getD 0
  let represent := fun variant : VariantInfo =>
    Representation.mk variant (dashSegmentTemplate variant.initKey baseUrl
      ((segmentsByVariant.lookup variant.variantId).getD []))
  { duration := formatIsoDuration ops total
    video := (variants.filter fun v => v.mediaType = "video").map represent
    audio := (variants.filter fun v => v.mediaType = "audio").map represent }

/-- An attribute that is left out without a value. -/
def givenAttribute (name value : String) : String := if value = "" then "" else s!" {name}=\"{value}\""

def Representation.start (r : Representation) : String :=
  s!"      <Representation id=\"{r.variant.variantId}\" bandwidth=\"{r.variant.bandwidth}\""

def Representation.renderVideo (r : Representation) : String :=
  r.start ++
    (if 0 < r.variant.width ∧ 0 < r.variant.height then
      s!" width=\"{r.variant.width}\" height=\"{r.variant.height}\"" else "") ++
    givenAttribute "codecs" r.variant.codec ++ givenAttribute "frameRate" r.variant.frameRate ++ ">\n" ++
    r.template.render ++ "      </Representation>\n"

def channelScheme : String := "urn:mpeg:dash:23003:3:audio_channel_configuration:2011"

def Representation.renderAudio (r : Representation) : String :=
  r.start ++ givenAttribute "codecs" r.variant.codec ++
    givenAttribute "audioSamplingRate" r.variant.sampleRate ++ ">\n" ++
    (if r.variant.channels = "" then "" else
      s!"        <AudioChannelConfiguration schemeIdUri=\"{channelScheme}\"" ++
        s!" value=\"{r.variant.channels}\"/>\n") ++
    r.template.render ++ "      </Representation>\n"

def renderAdaptationSet (mimeType : String) (representations : List String) : String :=
  if representations = [] then ""
  else s!"    <AdaptationSet mimeType=\"{mimeType}\" segmentAlignment=\"true\" startWithSAP=\"1\">\n" ++
    String.join representations ++ "    </AdaptationSet>\n"

def Mpd.render (mpd : Mpd) : String :=
  "<?xml version=\"1.0\" encoding=\"UTF-8\"?>\n<MPD xmlns=\"urn:mpeg:dash:schema:mpd:2011\"" ++
    s!" type=\"static\" mediaPresentationDuration=\"{mpd.duration}\" minBufferTime=\"PT2S\"" ++
    " profiles=\"urn:mpeg:dash:profile:isoff-on-demand:2011\">\n  <Period>\n" ++
    renderAdaptationSet "video/mp4" (mpd.video.map Representation.renderVideo) ++
    renderAdaptationSet "audio/mp4" (mpd.audio.map Representation.renderAudio) ++
    "  </Period>\n</MPD>\n"

variable (config : PlaylistConfig ℚ) (streamId : String) (s : IndexState)

/-- The segments of a variant. -/
def dashSegments (variantId : String) : List (SegmentInfo ℚ) :=
  (discoverSegments ops.toFloatOps config.toStreamingConfig streamId variantId s).1

/-- The manifest that `get_dash_mpd` makes. -/
def dashMpd : Mpd :=
  let variants := (discoverVariants config.toStreamingConfig streamId s).1
  generateDashMpd ops variants
    (variants.map fun v => (v.variantId, dashSegments ops config streamId s v.variantId)) config.baseUrl

def getDashMpd : PlaylistResponse :=
  if (discoverVariants config.toStreamingConfig streamId s).1 = [] then .notFound
  else .ok [("content-type", "application/dash+xml"), ("cache-control", "no-cache")]
    (dashMpd ops config streamId s).render

end

/-! ## What the manifest is to give -/

/-- The URL for each number is that of the segment. -/
def SegmentTemplate.Addresses (template : SegmentTemplate) (baseUrl : String)
    (segments : List (SegmentInfo ℚ)) : Prop :=
  ∀ i segment, segments[i]? = some segment → template.url i = some (mediaUrl baseUrl segment.key)

/-- No two neighbours differ by 10 ms. -/
def UniformDurations (segments : List (SegmentInfo ℚ)) : Prop :=
  segments.IsChain fun a b => |a.duration - b.duration| < 1 / 100

/-- The keys are numbered from 0 on with six digits and have one extension, and nothing in them or in the
URL before them reads as the number or as another `/seg-`. -/
structure Numbered (baseUrl : String) (segments : List (SegmentInfo ℚ)) (path ext : String) : Prop where
  keys : ∀ i segment, segments[i]? = some segment →
    segment.key = path ++ "/seg-" ++ String.ofList (paddedNumber i) ++ "." ++ ext
  dot : '.' ∉ ext.toList
  last : ¬ "/seg-".toList <:+: ext.toList
  plainExt : ¬ numberFormat.toList <:+: ext.toList
  plainUrl : ¬ numberFormat.toList <:+: (mediaUrl baseUrl path).toList

end KaidaDB
