import KaidaDB.Api.GetMedia
import KaidaDB.Api.Grpc

/-!
# The REST API

The handlers behind the routes of `router`, the authentication before them, and the layer that answers
OPTIONS requests before that. A reply with a JSON body is given by what is encoded. A panic of a handler
is answered by a layer as well, and is the error of the program here.
-/

namespace KaidaDB

variable (X : Crates)

structure ListQuery where
  keyPrefix : Option String
  limit : Option Nat
  cursor : Option String
deriving DecidableEq, Repr

/-- An item of `list_media`. -/
structure ListedMedia where
  key : String
  totalSize : Nat
  chunkCount : Nat
  contentType : String
  checksum : String
  createdAt : Int
deriving DecidableEq, Repr

inductive RestReply where
  /-- A status and no body. -/
  | status (code : Nat)
  | text (code : Nat) (body : String)
  /-- 200 with these headers and no body. -/
  | head (headers : List (String × String))
  | media (download : Download)
  /-- No response if the handler is dropped. -/
  | put (response : Option RestResponse)
  | playlist (response : PlaylistResponse)
  | listed (items : List ListedMedia) (nextCursor : Option String)
  | metadata (m : MediaMetadata)
  | renamed (response : RenameMediaResponse)
  | streams (items : List StreamListItem) (nextCursor : Option String)
  | streamDeleted (variantsDeleted segmentsDeleted : Nat)
  | health (status version : String)
  /-- What `CorsLayer` answers an OPTIONS request with. -/
  | preflight

structure RestRequest extends Client where
  method : Method
  path : String
  /-- The query as `Query` reads it, or how it refuses it. -/
  query : Except (Nat × String) ListQuery
  /-- The body as `Json` reads it, or how it refuses it. -/
  renameRequest : Except (Nat × String) RenameMediaRequest
  frames : List Bytes
  ending : Ending

/-- The characters of a token. -/
def isTokenChar (c : Char) : Bool :=
  c.isAlphanum || c ∈ "!#$%&'*+-.^_|~".toList || c = '\x60'

/-- What `HeaderName` accepts: a token. -/
def isHeaderName (s : String) : Bool := s ≠ "" && s.toList.all isTokenChar

namespace Rest

/-- A program on the store whose errors are answered. -/
def answering {α : Type} (x : M α) (onError : KaidaDbError → RestReply) (f : α → RestReply) :
    ServerM RestReply := do
  match ← (attempt x : M (Except Fail α)) with
  | .ok a => return f a
  | .error (.error e) => return onError e
  | .error e => (throw e : M RestReply)

def internalError (e : KaidaDbError) : RestReply := .text 500 e.display

/-! ## Media -/

def listedMedia (m : MediaManifest) : ListedMedia :=
  ⟨m.key, m.totalSize, m.chunkCount, m.contentType, m.checksum, m.createdAt⟩

def listMedia (query : ListQuery) : ServerM RestReply :=
  answering
    (Index.listManifests (query.keyPrefix.getD "") (query.limit.getD 100) (query.cursor.getD ""))
    internalError fun page => .listed (page.1.map listedMedia) page.2

def getMeta (key : String) : ServerM RestReply :=
  answering (Index.getManifest key) internalError fun
    | some manifest => .metadata (manifestToMetadata manifest)
    | none => .status 404

/-- The headers that describe an object. -/
def headHeaders (m : MediaManifest) : List (String × String) :=
  [("content-type", m.contentType), ("content-length", toString m.totalSize),
    ("accept-ranges", "bytes"), ("X-KaidaDB-Checksum", m.checksum),
    ("X-KaidaDB-Chunk-Count", toString m.chunkCount)] ++
  m.metadata.map fun p => ("X-KaidaDB-Meta-" ++ p.1, p.2)

/-- What the builder makes of the headers: the first that is not one fails. -/
def buildHead (headers : List (String × String)) : RestReply :=
  match headers.find? fun h => !(isHeaderName h.1 && isHeaderValue h.2) with
  | none => .head headers
  | some (name, _) =>
    if isHeaderName name then .text 500 "failed to parse header value"
    else .text 500 "invalid HTTP header name"

def headMedia (key : String) : ServerM RestReply :=
  answering (Index.getManifest key) internalError fun
    | some manifest => buildHead (headHeaders manifest)
    | none => .status 404

def deleteMedia (key : String) : ServerM RestReply := do
  if let some manifest := (← currentIndex).manifests[key]? then
    invalidateAll manifest.chunks
  answering (StorageEngine.delete X key) internalError fun deleted =>
    .status (if deleted then 204 else 404)

def renameError : KaidaDbError → RestReply
  | .notFound _ => .status 404
  | .alreadyExists msg => .text 409 msg
  | e => .text 400 e.display

def renameMedia (request : RenameMediaRequest) : ServerM RestReply :=
  answering (StorageEngine.rename X request.fromKey request.toKey) renameError fun manifest =>
    .renamed ⟨manifest.key, manifest.totalSize, manifest.contentType⟩

def health : RestReply := .health "ok" version

/-! ## Streams -/

section
variable (ops : DashOps) (config : PlaylistConfig ℚ)

def listStreams (query : ListQuery) : ServerM RestReply := do
  let (items, nextCursor) := KaidaDB.listStreams config.toStreamingConfig (query.keyPrefix.getD "")
    (query.limit.getD 100) (query.cursor.getD "") (← currentIndex)
  return .streams items nextCursor

def deleteStreamHandler (streamId : String) : ServerM RestReply := do
  let index ← currentIndex
  invalidateAll (Grpc.streamChunks config streamId index)
  answering (KaidaDB.deleteStream X config.toStreamingConfig streamId (index.manifests.size + 1))
    internalError fun counts => .streamDeleted counts.1 counts.2

end

/-! ## The service -/

/-- An extractor in front of a handler. -/
def extracted {α : Type} (read : Except (Nat × String) α) (handler : α → ServerM RestReply) :
    ServerM RestReply :=
  match read with
  | .error (code, body) => pure (.text code body)
  | .ok a => handler a

/-- The handler of an endpoint. The handlers of media that are given a raw key strip a slash from it. -/
def handle (ops : DashOps) (checks : Bool) (state : AppState) (request : RestRequest) :
    Endpoint → ServerM RestReply
  | .listMedia => extracted request.query listMedia
  | .renameMedia => extracted request.renameRequest (renameMedia X)
  | .listStreams => extracted request.query (listStreams state.streaming)
  | .health => pure health
  | .getMeta key => getMeta key
  | .getMedia key => fun cache => do
    let download ← KaidaDB.getMedia X checks ⟨"/" ++ key, request.headers⟩ cache
    return (.media download, download.cache)
  | .putMedia key => do
    return .put (← (putMedia X state.engine
      ⟨"/" ++ key, request.headers, request.frames, request.ending⟩ : M _))
  | .headMedia key => headMedia key
  | .deleteMedia key => deleteMedia X key
  | .hlsMaster streamId => do
    return .playlist (getHlsMaster state.streaming streamId (← currentIndex))
  | .dashMpd streamId => do
    return .playlist (getDashMpd ops state.streaming streamId (← currentIndex))
  | .hlsMediaPlaylist streamId variantId => do
    return .playlist (getHlsMediaPlaylist ops.toFloatOps state.streaming streamId variantId
      (← currentIndex)).1
  | .deleteStream streamId => deleteStreamHandler X state.streaming streamId
  | .methodNotAllowed => pure (.status 405)
  | .notFound => pure (.status 404)

/-- A request to the router. -/
def serve (ops : DashOps) (checks : Bool) (state : AppState) (request : RestRequest) :
    ServerM RestReply :=
  if request.method = .options then pure .preflight
  else authMiddleware X state.serverKeyHash request.toClient (fun body => pure (.text 401 body))
    (handle X ops checks state request (route request.method request.path))

end Rest

end KaidaDB
