import KaidaDB.Api.Discovery
import KaidaDB.Api.Upload
import KaidaDB.Lib.Percent
import KaidaDB.Lib.Replace

/-!
# Routes

The paths of the REST API lead to handlers: four fixed ones by the router, all others by
`combined_fallback`, which decodes what follows `/v1/meta/`, `/v1/streams/` or `/v1/media/`. Playlists
name media and other playlists by URLs made with `media_url` and `variant_playlist_url`.
-/

namespace KaidaDB

inductive Method where
  | get
  | head
  | post
  | put
  | delete
  | options
  | other (name : String)
deriving DecidableEq, Repr

/-- The handlers, with what they are called with. Those of media have normalized their key. -/
inductive Endpoint where
  | listMedia
  | renameMedia
  | listStreams
  | health
  | getMeta (key : String)
  | getMedia (key : String)
  | putMedia (key : String)
  | headMedia (key : String)
  | deleteMedia (key : String)
  | hlsMaster (streamId : String)
  | dashMpd (streamId : String)
  | hlsMediaPlaylist (streamId variantId : String)
  | deleteStream (streamId : String)
  | methodNotAllowed
  | notFound
deriving DecidableEq, Repr

/-- A handler for GET requests, and 405 for others. -/
def onGet (method : Method) (endpoint : Endpoint) : Endpoint :=
  if method = .get then endpoint else .methodNotAllowed

/-- The variant's playlist, if the path is that of one. -/
def variantPath? (path : String) : Option (String × String) :=
  if endsWith path "/playlist.m3u8" then
    (Replace.rfind? "/variant/".toList path.toList).bind fun variantPos =>
      let afterVariant := String.ofList (path.toList.drop (variantPos + "/variant/".toList.length))
      (stripSuffix? afterVariant "/playlist.m3u8").map fun variantId =>
        (String.ofList (path.toList.take variantPos), variantId)
  else none

/-- Route streaming requests under /v1/streams/. -/
def handleStreamsPath (method : Method) (path : String) : Option Endpoint :=
  match stripSuffix? path "/master.m3u8" with
  | some streamId => some (onGet method (.hlsMaster streamId))
  | none =>
    match stripSuffix? path "/manifest.mpd" with
    | some streamId => some (onGet method (.dashMpd streamId))
    | none =>
      match variantPath? path with
      | some (streamId, variantId) => some (onGet method (.hlsMediaPlaylist streamId variantId))
      | none =>
        if method = .delete ∧ path ≠ "" ∧ '.' ∉ path.toList then some (.deleteStream path) else none

/-- `percent_decode_str` and `decode_utf8_lossy`. -/
def percentDecodeLossy (raw : String) : String :=
  String.ofList (Utf8.lossy (Percent.decode raw.toList))

/-- Combined fallback handler that routes both /v1/streams/ and /v1/media/ requests. -/
def combinedFallback (method : Method) (path : String) : Endpoint :=
  match stripPrefix? path "/v1/meta/" with
  | some rawKey => .getMeta (normalizeKey (percentDecodeLossy rawKey))
  | none =>
    match stripPrefix? path "/v1/streams/" with
    | some rawPath => (handleStreamsPath method (percentDecodeLossy rawPath)).getD .notFound
    | none =>
      match stripPrefix? path "/v1/media/" with
      | none => .notFound
      | some rawKey =>
        let key := normalizeKey (percentDecodeLossy rawKey)
        match method with
        | .get => .getMedia key
        | .put => .putMedia key
        | .head => .headMedia key
        | .delete => .deleteMedia key
        | _ => .methodNotAllowed

/-- A route of axum's `get`, which also serves HEAD requests. -/
def getRoute (method : Method) (endpoint : Endpoint) : Endpoint :=
  if method = .get ∨ method = .head then endpoint else .methodNotAllowed

/-- The handler of a request that the router gets. -/
def route (method : Method) (path : String) : Endpoint :=
  if path = "/v1/media" then getRoute method .listMedia
  else if path = "/v1/media/rename" then
    if method = .post then .renameMedia else .methodNotAllowed
  else if path = "/v1/streams" then getRoute method .listStreams
  else if path = "/v1/health" then getRoute method .health
  else combinedFallback method path

/-! ## URLs -/

def variantPlaylistUrl (baseUrl streamId variantId : String) : String :=
  if baseUrl = "" then s!"/v1/streams/{streamId}/variant/{variantId}/playlist.m3u8"
  else s!"{trimEndSlashes baseUrl}/v1/streams/{streamId}/variant/{variantId}/playlist.m3u8"

/-- The path of a URL without a host: up to the first `?` or `#`. -/
def uriPath (url : String) : String :=
  String.ofList (url.toList.takeWhile fun c => c ≠ '?' ∧ c ≠ '#')

/-- Where a GET request of a URL as written leads. -/
def requested (url : String) : Endpoint := route .get (uriPath url)

/-! ## What has a meaning in paths -/

/-- The path of a media playlist below `/v1/streams/`. -/
def variantPath (s v : String) : String := s ++ "/variant/" ++ v ++ "/playlist.m3u8"

/-- A `/variant/` behind that before the variant id. -/
def LaterVariant (v : String) : Prop :=
  "/variant/".toList <:+: '/' :: (v.toList ++ "/playlist.m3u8".toList)

/-- There is nothing in the text that ends a path or is decoded. -/
structure UrlPlain (k : String) : Prop where
  noQuery : '?' ∉ k.toList
  noFragment : '#' ∉ k.toList
  noEscape : ¬ Percent.HasEscape k.toList

end KaidaDB
