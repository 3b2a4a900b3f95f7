import KaidaDB.Api.RangeHeader
import KaidaDB.Api.Streams

/-!
# Discovering variants and segments

`streaming::discover_variants` and `discover_segments` find what a stream consists of by the keys, and
`get_hls_media_playlist` lists the segments of a variant. With its result each function returns what it
asked the index for. Numbers with a fraction are of any type with the operations of `FloatOps`.
-/

namespace KaidaDB

/-- The operations on `f64` that playlists use. -/
structure FloatOps (F : Type) where
  /-- `str::parse`. -/
  parse : String → Option F
  four : F
  /-- `ceil() as u64`. -/
  ceilU64 : F → Nat
  /-- The format `:.3`. -/
  fixed3 : F → String

structure PlaylistConfig (F : Type) extends StreamingConfig where
  targetDuration : F
  baseUrl : String
  vodMode : Bool

structure VariantInfo where
  variantId : String
  initKey : String
  codec : String
  bandwidth : Nat
  width : Nat
  height : Nat
  mediaType : String
  language : String
  frameRate : String
  sampleRate : String
  channels : String
deriving DecidableEq, Repr

structure SegmentInfo (F : Type) where
  key : String
  index : Nat
  duration : F

/-- What is asked of the index: a key, or the keys with a prefix. -/
inductive Asked where
  | key (key : String)
  | keys (keyPrefix : String)

/-- The answer may depend on the key. -/
def Asked.Covers : Asked → String → Prop
  | .key asked, k => k = asked
  | .keys keyPrefix, k => startsWith k keyPrefix = true

/-! ## Strings -/

/-- `str::strip_prefix`. -/
def stripPrefix? (s p : String) : Option String :=
  if startsWith s p then some (String.ofList (s.toList.drop p.toList.length)) else none

/-- `str::ends_with`. -/
def endsWith (s p : String) : Bool :=
  startsWith (String.ofList s.toList.reverse) (String.ofList p.toList.reverse)

/-- `str::strip_suffix`. -/
def stripSuffix? (s p : String) : Option String :=
  if endsWith s p then some (String.ofList (s.toList.take (s.toList.length - p.toList.length)))
  else none

/-- `str::parse::<u32>`. -/
def parseU32 (s : List Char) : Option Nat := Decimal.parse (2 ^ 32) s

/-- `str::trim_end_matches('/')`. -/
def trimEndSlashes (s : String) : String :=
  String.ofList (s.toList.reverse.dropWhile (· = '/')).reverse

/-! ## Variants -/

/-- A number in the metadata, or else 0. -/
def metaNumber (parse : List Char → Option Nat) (metadata : List (String × String)) (name : String) :
    Nat :=
  ((metadata.lookup name).bind fun s => parse s.toList).getD 0

/-- A text in the metadata, or else the empty one. -/
def metaText (metadata : List (String × String)) (name : String) : String :=
  (metadata.lookup name).getD ""

/-- The variant whose init segment has the key. -/
def variantId? (keyPrefix key : String) : Option String :=
  if endsWith key "/init.mp4" then (stripPrefix? key keyPrefix).bind (stripSuffix? · "/init.mp4")
  else none

def variantInfo (variantId : String) (manifest : MediaManifest) : VariantInfo where
  variantId := variantId
  initKey := manifest.key
  codec := metaText manifest.metadata "codec"
  bandwidth := metaNumber parseU64 manifest.metadata "bandwidth"
  width := metaNumber parseU32 manifest.metadata "width"
  height := metaNumber parseU32 manifest.metadata "height"
  mediaType := (manifest.metadata.lookup "media-type").getD "video"
  language := metaText manifest.metadata "language"
  frameRate := metaText manifest.metadata "frame-rate"
  sampleRate := metaText manifest.metadata "sample-rate"
  channels := metaText manifest.metadata "channels"

/-- The loop of `discover_variants`. -/
def collectVariants (keyPrefix : String) : List MediaManifest → List String → List VariantInfo
  | [], _ => []
  | manifest :: manifests, seenVariants =>
    match variantId? keyPrefix manifest.key with
    | none => collectVariants keyPrefix manifests seenVariants
    | some variantId =>
      if variantId ∈ seenVariants then collectVariants keyPrefix manifests seenVariants
      else variantInfo variantId manifest ::
        collectVariants keyPrefix manifests (variantId :: seenVariants)

/-- Discover all variants for a given stream by listing init segments. -/
def discoverVariants (config : StreamingConfig) (streamId : String) (s : IndexState) :
    List VariantInfo × List Asked :=
  let keyPrefix := config.streamPrefix ++ streamId ++ "variants/"
  let manifests := (Index.listPage keyPrefix 10000 "" s).1
  ((collectVariants keyPrefix manifests []).mergeSort fun a b => b.bandwidth ≤ a.bandwidth,
    [.keys keyPrefix])

/-! ## Segments -/

/-- Extract segment index from key like "streams/id/variants/720p/seg-000042.m4s". -/
def extractSegmentIndex (key : String) : Option Nat :=
  let filename := String.ofList (key.toList.reverse.takeWhile (· ≠ '/')).reverse
  (stripPrefix? filename "seg-").bind fun numPart => parseU64 (numPart.toList.takeWhile (· ≠ '.'))

section
variable {F : Type} (ops : FloatOps F)

/-- The loop of `discover_segments`, with the segments so far. -/
def collectSegments : List MediaManifest → List (SegmentInfo F) → List (SegmentInfo F)
  | [], segments => segments
  | manifest :: manifests, segments =>
    let named := (manifest.metadata.lookup "segment-index").bind fun s => parseU64 s.toList
    -- fallback: from the key
    let index := named.getD ((extractSegmentIndex manifest.key).getD segments.length)
    let duration := ((manifest.metadata.lookup "segment-duration").bind ops.parse).getD ops.four
    collectSegments manifests (segments ++ [⟨manifest.key, index, duration⟩])

/-- Discover all segments for a specific variant. -/
def discoverSegments (config : StreamingConfig) (streamId variantId : String) (s : IndexState) :
    List (SegmentInfo F) × List Asked :=
  let keyPrefix := config.streamPrefix ++ streamId ++ "variants/" ++ variantId ++ "/seg-"
  let manifests := (Index.listPage keyPrefix 100000 "" s).1
  ((collectSegments ops manifests []).mergeSort fun a b => a.index ≤ b.index, [.keys keyPrefix])

/-! ## The media playlist -/

/-- Compute the maximum segment duration across all segments. -/
def maxTargetDuration (segments : List (SegmentInfo F)) (default : F) : Nat :=
  ((segments.map fun segment => ops.ceilU64 segment.duration).max?).getD (ops.ceilU64 default)

/-- Build the media URL for a given key. -/
def mediaUrl (baseUrl key : String) : String :=
  if baseUrl = "" then s!"/v1/media/{key}" else s!"{trimEndSlashes baseUrl}/v1/media/{key}"

/-- Generate an HLS media playlist (.m3u8) for a single variant. -/
def generateHlsMedia (segments : List (SegmentInfo F)) (initKey : String) (config : PlaylistConfig F) :
    String :=
  let targetDur := maxTargetDuration ops segments config.targetDuration
  let entries := segments.map fun segment =>
    s!"#EXTINF:{ops.fixed3 segment.duration},\n{mediaUrl config.baseUrl segment.key}\n"
  s!"#EXTM3U\n#EXT-X-VERSION:7\n#EXT-X-TARGETDURATION:{targetDur}\n#EXT-X-MEDIA-SEQUENCE:0\n" ++
    s!"#EXT-X-MAP:URI=\"{mediaUrl config.baseUrl initKey}\"\n" ++ String.join entries ++
    if config.vodMode then "#EXT-X-ENDLIST\n" else ""

inductive PlaylistResponse where
  | notFound
  | ok (headers : List (String × String)) (body : String)
deriving DecidableEq

def getHlsMediaPlaylist (config : PlaylistConfig F) (streamId variantId : String) (s : IndexState) :
    PlaylistResponse × List Asked :=
  -- verify the variant exists by checking for init segment
  let initKey := config.streamPrefix ++ streamId ++ "variants/" ++ variantId ++ "/init.mp4"
  if (s.manifests[initKey]?).isNone then (.notFound, [.key initKey])
  else
    let (segments, asked) := discoverSegments ops config.toStreamingConfig streamId variantId s
    (.ok [("content-type", "application/vnd.apple.mpegurl"), ("cache-control", "no-cache")]
      (generateHlsMedia ops segments initKey config), .key initKey :: asked)

end

/-- The prefix of the keys that `delete_stream` removes. -/
def deletedPrefix (config : StreamingConfig) (streamId : String) : String :=
  config.streamPrefix ++ streamId ++ "/"

/-! ## The documented keys -/

/-- `variants/` of a stream, by the documentation. -/
def documentedVariants (config : StreamingConfig) (streamId : String) : String :=
  config.streamPrefix ++ streamId ++ "/variants/"

def documentedInit (config : StreamingConfig) (streamId variantId : String) : String :=
  documentedVariants config streamId ++ variantId ++ "/init.mp4"

def documentedSegments (config : StreamingConfig) (streamId variantId : String) : String :=
  documentedVariants config streamId ++ variantId ++ "/seg-"

end KaidaDB
