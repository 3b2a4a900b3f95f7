import KaidaDB.Api.Routes

/-!
# The HLS master playlist

`streaming::generate_hls_master` writes a line for each audio and subtitle variant, and two for each
video variant, or for each audio variant if there is no other. It puts what the metadata of the variants
say into these lines as it is.
-/

namespace KaidaDB

section
variable (baseUrl streamId : String)

/-- The language that a line names. -/
def VariantInfo.lang (v : VariantInfo) : String := if v.language = "" then "und" else v.language

/-- The name of an audio track. -/
def VariantInfo.trackName (v : VariantInfo) : String :=
  if v.language = "" then v.variantId else v.language

def VariantInfo.playlistUrl (v : VariantInfo) : String := variantPlaylistUrl baseUrl streamId v.variantId

/-- `EXT-X-MEDIA` for an audio track. -/
def VariantInfo.audioMedia (v : VariantInfo) : String :=
  s!"#EXT-X-MEDIA:TYPE=AUDIO,GROUP-ID=\"audio\",NAME=\"{v.trackName}\",LANGUAGE=\"{v.lang}\"," ++
    s!"DEFAULT=YES,URI=\"{v.playlistUrl baseUrl streamId}\"\n"

/-- `EXT-X-MEDIA` for a subtitle track. -/
def VariantInfo.subtitleMedia (v : VariantInfo) : String :=
  s!"#EXT-X-MEDIA:TYPE=SUBTITLES,GROUP-ID=\"subs\",NAME=\"{v.lang}\",LANGUAGE=\"{v.lang}\"," ++
    s!"DEFAULT=NO,URI=\"{v.playlistUrl baseUrl streamId}\"\n"

/-- `EXT-X-STREAM-INF` for a video variant, and its URI. -/
def VariantInfo.videoStreamInf (hasAudio hasSubtitles : Bool) (v : VariantInfo) : String :=
  let attrs := s!"BANDWIDTH={v.bandwidth}" ++
    (if 0 < v.width ∧ 0 < v.height then s!",RESOLUTION={v.width}x{v.height}" else "") ++
    (if v.codec = "" then "" else s!",CODECS=\"{v.codec}\"") ++
    (if v.frameRate = "" then "" else s!",FRAME-RATE={v.frameRate}") ++
    (if hasAudio then ",AUDIO=\"audio\"" else "") ++
    (if hasSubtitles then ",SUBTITLES=\"subs\"" else "")
  s!"#EXT-X-STREAM-INF:{attrs}\n{v.playlistUrl baseUrl streamId}\n"

/-- `EXT-X-STREAM-INF` for an audio variant, and its URI. -/
def VariantInfo.audioStreamInf (v : VariantInfo) : String :=
  let attrs := s!"BANDWIDTH={v.bandwidth}" ++
    (if v.codec = "" then "" else s!",CODECS=\"{v.codec}\"")
  s!"#EXT-X-STREAM-INF:{attrs}\n{v.playlistUrl baseUrl streamId}\n"

/-- Generate an HLS master playlist (.m3u8) listing all variants. -/
def generateHlsMaster (variants : List VariantInfo) : String :=
  let audio := variants.filter fun v => v.mediaType = "audio"
  let video := variants.filter fun v => v.mediaType = "video"
  let subtitle := variants.filter fun v => v.mediaType = "subtitle"
  "#EXTM3U\n#EXT-X-VERSION:7\n\n" ++
    String.join (audio.map (VariantInfo.audioMedia baseUrl streamId)) ++
    String.join (subtitle.map (VariantInfo.subtitleMedia baseUrl streamId)) ++
    (if audio ≠ [] ∨ subtitle ≠ [] then "\n" else "") ++
    String.join (video.map (VariantInfo.videoStreamInf baseUrl streamId (audio ≠ []) (subtitle ≠ []))) ++
    -- only audio: music or a podcast
    (if video = [] ∧ audio ≠ [] then
      String.join (audio.map (VariantInfo.audioStreamInf baseUrl streamId)) else "")

end

/-- `get_hls_master`. -/
def getHlsMaster {F : Type} (config : PlaylistConfig F) (streamId : String) (s : IndexState) :
    PlaylistResponse :=
  let variants := (discoverVariants config.toStreamingConfig streamId s).1
  if variants = [] then .notFound
  else .ok [("content-type", "application/vnd.apple.mpegurl"), ("cache-control", "no-cache")]
    (generateHlsMaster config.baseUrl streamId variants)

end KaidaDB
