import KaidaDB.Api.Rest
import KaidaDB.Lib.Slices
import KaidaDB.Storage.Spec

/-!
# What the service is for

A `Service` is a map from keys to objects, each with the content type and metadata it was stored with and
what else requests report of it. `serve` is what a request over either API makes of the map and how it is
answered. Of chunks only their size is left in it, since replies tell how many an object has; nothing of
references, files, the log or the cache is, so passes of `gc` do nothing. A body over REST is one piece
here; how a server cuts it is left open (`ApiReply.Same`). Over gRPC an object is sent in messages, one for
each chunk.
-/

namespace KaidaDB

open Std

variable (X : Crates)

structure StoredObject where
  data : Bytes
  contentType : String
  metadata : List (String × String)
  /-- The chunk size of the engine that stored it. -/
  chunkSize : Nat
  createdAt : Int
  updatedAt : Int
deriving DecidableEq, Repr

/-- What a server knows of an object. -/
def StoredObject.manifest (o : StoredObject) (key : String) : MediaManifest where
  key := key
  chunks := (Slices.slices o.chunkSize o.data).map (ChunkId.fromData X)
  totalSize := o.data.length
  chunkSize := o.chunkSize
  contentType := o.contentType
  checksum := String.ofList (hexEncode (X.sha256 o.data).toList)
  metadata := o.metadata
  createdAt := o.createdAt
  updatedAt := o.updatedAt

/-- The bytes from `offset` on, as many as `length`, or all of them if that is 0. -/
def StoredObject.part (o : StoredObject) (offset length : Nat) : Bytes :=
  if length = 0 then o.data.drop offset else (o.data.drop offset).take length

/-- The part that a range over gRPC asks for, cut where a chunk begins. Offsets and lengths are `u64`, and an
end after 2^64 leaves nothing. -/
def StoredObject.pieces (o : StoredObject) (offset length : Nat) : List Bytes :=
  if 2 ^ 64 < offset + length then []
  else Slices.slicesAfter (o.chunkSize - offset % o.chunkSize) o.chunkSize (o.part offset length)

/-- The messages that a range is sent in. -/
def StoredObject.messages (o : StoredObject) (offset length : Nat) : List MediaChunk :=
  frames 0 offset (o.pieces offset length)

/-- The response to a download over REST. -/
def StoredObject.download (o : StoredObject) (rangeHeader : Option Bytes) : MediaResponse :=
  let headers := [("content-type", o.contentType), ("accept-ranges", "bytes")]
  if isHeaderValue o.contentType then
    match parseRangeHeader rangeHeader o.data.length with
    | (offset, length, true) => .stream 206
        (headers ++ [("content-length", toString length),
          ("content-range", s!"bytes {offset}-{offset + length - 1}/{o.data.length}")])
        [.ok (o.part offset length)]
    | (_, _, false) => .stream 200 (headers ++ [("content-length", toString o.data.length)]) [.ok o.data]
  else .text 500 "failed to parse header value"

structure Service where
  state : AppState
  objects : ExtTreeMap String StoredObject
  clock : Int

inductive ApiRequest where
  | rest (request : RestRequest)
  | grpc (client : Client) (call : GrpcCall)

inductive ApiReply where
  | rest (reply : RestReply)
  | grpc (reply : Except Status GrpcReply)
  /-- The handler has panicked. -/
  | panicked (e : Fail)

namespace Service

variable (s : Service)

/-- The time that requests see, in seconds. -/
def now : Int := if s.clock < 0 then 0 else s.clock / 10 ^ 9

/-- What a server lists. -/
def index : IndexState := ⟨s.objects.map fun key o => o.manifest X key, ∅⟩

/-! ## Changes -/

/-- What an upload makes of its frames. -/
def object (job : Upload.Job) : StoredObject :=
  ⟨job.frames.flatten, job.contentType, job.metadata, s.state.engine.chunkSize, s.now, s.now⟩

/-- An upload, unless the key is not valid or it is too large. -/
def put (job : Upload.Job) : Service × Except Fail StoredObject :=
  match Spec.mayBegin s.state.engine job.key,
    Spec.mayWrite s.state.engine.maxObjectSize [] job.frames.flatten with
  | .error e, _ => (s, .error e)
  | .ok (), .error e => (s, .error e)
  | .ok (), .ok () => ({ s with objects := s.objects.insert job.key (s.object job) }, .ok (s.object job))

def delete (key : String) : Service × Bool :=
  ({ s with objects := s.objects.erase key }, (s.objects[key]?).isSome)

/-- Why a key is not accepted. -/
def keyError? (key : String) : Option KaidaDbError :=
  match validateKey key with
  | .error (.error e) => some e
  | _ => none

def rename (fromKey toKey : String) : Service × Except KaidaDbError StoredObject :=
  match keyError? toKey with
  | some e => (s, .error e)
  | none =>
    if fromKey = toKey then (s, .error (.invalidKey "source and destination keys are the same"))
    else
      match s.objects[fromKey]? with
      | none => (s, .error (.notFound fromKey))
      | some o =>
        if (s.objects[toKey]?).isSome then (s, .error (.alreadyExists toKey))
        else
          let o := { o with updatedAt := s.now }
          ({ s with objects := (s.objects.insert toKey o).erase fromKey }, .ok o)

/-- The keys of a stream. -/
def streamKeys (streamId : String) : List String :=
  s.objects.keys.filter (startsWith · (deletedPrefix s.state.streaming.toStreamingConfig streamId))

/-- All keys of a stream; how many of them are init segments, and how many are not. -/
def deleteStream (streamId : String) : Service × (Nat × Nat) :=
  let keys := s.streamKeys streamId
  ({ s with objects := s.objects.filter fun key _ =>
      !startsWith key (deletedPrefix s.state.streaming.toStreamingConfig streamId) },
    (keys.countP (endsWith · "/init.mp4"), keys.countP fun key => !endsWith key "/init.mp4"))

/-! ## REST -/

/-- What `put_media` answers to an upload with this result. The body of one that fails is not always read to
its end. -/
def putResponse (ending : Ending) (result : Except Fail MediaManifest) : Option RestResponse :=
  match ending with
  | .dropped => none
  | .readError text refused =>
    if refused && !result.isOk then some (uploadResponse result)
    else some (.text 400 s!"body read error: {text}")
  | .clean => some (uploadResponse result)

def endpoint (ops : DashOps) (request : RestRequest) : Endpoint → Service × RestReply
  | .listMedia => (s, match request.query with
    | .error (code, body) => .text code body
    | .ok query =>
      let page := Index.listPage (query.keyPrefix.getD "") (query.limit.getD 100) (query.cursor.getD "")
        (s.index X)
      .listed (page.1.map Rest.listedMedia) page.2)
  | .getMeta key => (s, match s.objects[key]? with
    | some o => .metadata (manifestToMetadata (o.manifest X key))
    | none => .status 404)
  | .getMedia key => (s, .media ⟨match s.objects[key]? with
      | some o => o.download (GetMedia.range ⟨key, request.headers⟩)
      | none => .text 404 "not found", none, .new 0⟩)
  | .putMedia key =>
    let job : Upload.Job := PutMedia.job ⟨"/" ++ key, request.headers, request.frames, request.ending⟩
    let (s', result) := s.put job
    (s', .put (putResponse request.ending (result.map (·.manifest X job.key))))
  | .headMedia key => (s, match s.objects[key]? with
    | some o => Rest.buildHead (Rest.headHeaders (o.manifest X key))
    | none => .status 404)
  | .deleteMedia key =>
    let (s', deleted) := s.delete key
    (s', .status (if deleted then 204 else 404))
  | .renameMedia =>
    match request.renameRequest with
    | .error (code, body) => (s, .text code body)
    | .ok ⟨fromKey, toKey⟩ =>
      match s.rename fromKey toKey with
      | (s', .ok o) => (s', .renamed ⟨toKey, o.data.length, o.contentType⟩)
      | (s', .error e) => (s', Rest.renameError e)
  | .listStreams => (s, match request.query with
    | .error (code, body) => .text code body
    | .ok query =>
      let page := KaidaDB.listStreams s.state.streaming.toStreamingConfig (query.keyPrefix.getD "")
        (query.limit.getD 100) (query.cursor.getD "") (s.index X)
      .streams page.1 page.2)
  | .hlsMaster streamId => (s, .playlist (getHlsMaster s.state.streaming streamId (s.index X)))
  | .dashMpd streamId => (s, .playlist (getDashMpd ops s.state.streaming streamId (s.index X)))
  | .hlsMediaPlaylist streamId variantId => (s, .playlist
      (getHlsMediaPlaylist ops.toFloatOps s.state.streaming streamId variantId (s.index X)).1)
  | .deleteStream streamId =>
    let (s', variantsDeleted, segmentsDeleted) := s.deleteStream streamId
    (s', .streamDeleted variantsDeleted segmentsDeleted)
  | .health => (s, Rest.health)
  | .methodNotAllowed => (s, .status 405)
  | .notFound => (s, .status 404)

def rest (ops : DashOps) (request : RestRequest) : Service × RestReply :=
  if request.method = .options then (s, .preflight)
  else authMiddleware X s.state.serverKeyHash request.toClient (fun body => (s, .text 401 body))
    (s.endpoint X ops request (route request.method request.path))

/-! ## gRPC -/

/-- What `store_media` answers to an upload with this result. -/
def storeReply (ending : Ending) (result : Except Fail MediaManifest) : Except Status GrpcReply :=
  match ending with
  | .dropped => .ok .nothing
  | .readError text refused =>
    if refused && !result.isOk then (storeResponse result).map .stored
    else .error (.mk .internal text)
  | .clean => (storeResponse result).map .stored

/-- A call that is let through. -/
def call (ops : DashOps) : GrpcCall → Service × Except Status GrpcReply
  | .storeMedia messages ending =>
    match StoreMedia.job ⟨.ok (), messages, ending⟩ with
    | .error none => (s, .ok .nothing)
    | .error (some status) => (s, .error status)
    | .ok job =>
      let (s', result) := s.put job
      (s', storeReply ending (result.map (·.manifest X job.key)))
  | .streamMedia key offset length => (s, match s.objects[key]? with
    | some o => .ok (.chunks ((o.messages offset length).map .ok))
    | none => .error (.mk .notFound s!"key not found: {key}"))
  | .getMediaMeta key => (s, match s.objects[key]? with
    | some o => .ok (.media (manifestToMetadata (o.manifest X key)))
    | none => .error (.mk .notFound s!"key not found: {key}"))
  | .deleteMedia key =>
    let (s', deleted) := s.delete key
    (s', .ok (.deleted deleted))
  | .renameMedia ⟨fromKey, toKey⟩ =>
    if fromKey = "" ∨ toKey = "" then
      (s, .error (.mk .invalidArgument "from_key and to_key are required"))
    else
      match s.rename fromKey toKey with
      | (s', .ok o) => (s', .ok (.renamed ⟨toKey, o.data.length, o.contentType⟩))
      | (s', .error e) => (s', .error (Grpc.renameStatus e))
  | .listMedia message =>
    let page := Index.listPage message.keyPrefix message.pageLimit message.cursor (s.index X)
    (s, .ok (.listed ⟨page.1.map manifestToMetadata, page.2.getD ""⟩))
  | .healthCheck => (s, .ok (.health ⟨"ok", version, 0⟩))
  | .getHlsMasterPlaylist streamId => (s, match getHlsMaster s.state.streaming streamId (s.index X) with
    | .notFound => .error (.mk .notFound s!"stream not found: {streamId}")
    | .ok _ body => .ok (.playlist ⟨"application/vnd.apple.mpegurl", body⟩))
  | .getHlsMediaPlaylist message => (s, match (getHlsMediaPlaylist ops.toFloatOps s.state.streaming
      message.streamId message.variantId (s.index X)).1 with
    | .notFound => .error (.mk .notFound s!"variant not found: {message.variantId}")
    | .ok _ body => .ok (.playlist ⟨"application/vnd.apple.mpegurl", body⟩))
  | .getDashManifest streamId => (s, match getDashMpd ops s.state.streaming streamId (s.index X) with
    | .notFound => .error (.mk .notFound s!"stream not found: {streamId}")
    | .ok _ body => .ok (.playlist ⟨"application/dash+xml", body⟩))
  | .listStreams message =>
    let page := KaidaDB.listStreams s.state.streaming.toStreamingConfig message.keyPrefix
      message.pageLimit message.cursor (s.index X)
    (s, .ok (.streams ⟨page.1.map StreamListItem.streamId, page.2.getD ""⟩))
  | .deleteStream streamId =>
    let (s', variantsDeleted, segmentsDeleted) := s.deleteStream streamId
    (s', .ok (.streamDeleted ⟨variantsDeleted, segmentsDeleted⟩))

def grpc (ops : DashOps) (client : Client) (call : GrpcCall) : Service × Except Status GrpcReply :=
  match checkAuth X s.state.serverKeyHash client with
  | .error status => (s, .error status)
  | .ok () => s.call X ops call

def serve (ops : DashOps) : ApiRequest → Service × ApiReply
  | .rest request =>
    let (s', reply) := s.rest X ops request
    (s', .rest reply)
  | .grpc client call =>
    let (s', reply) := s.grpc X ops client call
    (s', .grpc reply)

/-- No objects. -/
def empty (state : AppState) : Service := ⟨state, ∅, 0⟩

end Service

/-! ## Replies up to the pieces of bodies -/

/-- The pieces of a body, none of which is an error. -/
def WholeBody {ε : Type} (pieces : List (Except ε Bytes)) (d : Bytes) : Prop :=
  ∃ parts : List Bytes, pieces = parts.map .ok ∧ parts.flatten = d

def MediaResponse.Same : MediaResponse → MediaResponse → Prop
  | .stream status headers body, .stream status' headers' body' =>
    status = status' ∧ headers = headers' ∧ ∃ d, WholeBody body d ∧ WholeBody body' d
  | response, response' => response = response'

def RestReply.Same : RestReply → RestReply → Prop
  | .media download, .media download' => download.response.Same download'.response
  | reply, reply' => reply = reply'

def ApiReply.Same : ApiReply → ApiReply → Prop
  | .rest reply, .rest reply' => reply.Same reply'
  | reply, reply' => reply = reply'

end KaidaDB
