import KaidaDB.Api.Auth
import KaidaDB.Api.Dash
import KaidaDB.Api.DeleteStream
import KaidaDB.Api.Hls
import KaidaDB.Api.StreamMedia

/-!
# The gRPC service

The twelve methods of `KaidaDbGrpc`. A handler works on the cache and the store; it returns a message or
a status, and a panic ends its task.
-/

namespace KaidaDB

variable (X : Crates)

/-- What the services of both APIs are built with. -/
structure AppState where
  engine : StorageEngine
  streaming : PlaylistConfig ℚ
  serverKeyHash : String

/-- Programs on the cache and the store. -/
abbrev ServerM := StateT ChunkCache M

/-- A handler that may return a status instead. -/
abbrev Handler := ExceptT Status ServerM

/-- A request with what `check_auth` returns for it. -/
structure Request (T : Type) where
  auth : Except Status Unit
  message : T

/-- `self.check_auth(&request)?` and `request.into_inner()`. -/
def Request.intoInner {T : Type} (request : Request T) : Handler T :=
  match request.auth with
  | .error status => throw status
  | .ok () => pure request.message

/-- A program on the store, with `map_err`. -/
def mapErr {α : Type} (f : KaidaDbError → Status) (x : M α) : Handler α := do
  match ← (attempt x : M (Except Fail α)) with
  | .ok a => return a
  | .error (.error e) => throw (f e)
  | .error e => (throw e : M α)

def internal (e : KaidaDbError) : Status := .mk .internal e.display

/-- What an index holds now. -/
def currentIndex : ServerM IndexState := do return (← (get : M Store)).index

/-- Removes chunks from the cache. -/
def invalidateAll : List ChunkId → ServerM Unit
  | [] => pure ()
  | chunkId :: rest => do
    let cache ← (check ((← get).invalidate chunkId) : M ChunkCache)
    set cache
    invalidateAll rest

/-! ## Messages -/

structure MediaMetadata where
  key : String
  totalSize : Nat
  chunkCount : Nat
  contentType : String
  checksum : String
  metadata : List (String × String)
  createdAt : Int
  updatedAt : Int
deriving DecidableEq, Repr

def manifestToMetadata (m : MediaManifest) : MediaMetadata :=
  ⟨m.key, m.totalSize, m.chunkCount, m.contentType, m.checksum, m.metadata, m.createdAt, m.updatedAt⟩

structure RenameMediaRequest where
  fromKey : String
  toKey : String
deriving DecidableEq, Repr

structure RenameMediaResponse where
  key : String
  totalSize : Nat
  contentType : String
deriving DecidableEq, Repr

/-- `ListMediaRequest` and `ListStreamsRequest`. -/
structure ListRequest where
  keyPrefix : String
  limit : Nat
  cursor : String
deriving DecidableEq, Repr

/-- 0 stands for the default. -/
def ListRequest.pageLimit (request : ListRequest) : Nat :=
  if request.limit = 0 then 100 else request.limit

structure ListMediaResponse where
  items : List MediaMetadata
  nextCursor : String
deriving DecidableEq, Repr

structure HealthCheckResponse where
  status : String
  version : String
  uptimeSeconds : Nat
deriving DecidableEq, Repr

/-- `CARGO_PKG_VERSION`. -/
def version : String := "0.1.0"

structure GetVariantPlaylistRequest where
  streamId : String
  variantId : String
deriving DecidableEq, Repr

/-- The message `PlaylistResponse`. -/
structure PlaylistMessage where
  contentType : String
  body : String
deriving DecidableEq, Repr

structure ListStreamsResponse where
  streamIds : List String
  nextCursor : String
deriving DecidableEq, Repr

structure DeleteStreamResponse where
  variantsDeleted : Nat
  segmentsDeleted : Nat
deriving DecidableEq, Repr

/-! ## Handlers -/

namespace Grpc

def getMediaMeta (request : Request String) : Handler MediaMetadata := do
  let key ← request.intoInner
  match ← mapErr internal (Index.getManifest key) with
  | none => throw (.mk .notFound s!"key not found: {key}")
  | some manifest => return manifestToMetadata manifest

def deleteMedia (request : Request String) : Handler Bool := do
  let key ← request.intoInner
  if let some manifest := (← currentIndex).manifests[key]? then
    invalidateAll manifest.chunks
  mapErr internal (StorageEngine.delete X key)

def renameStatus (e : KaidaDbError) : Status :=
  let code := match e with
    | .notFound _ => .notFound
    | .alreadyExists _ => .alreadyExists
    | .invalidKey _ => .invalidArgument
    | _ => .internal
  .mk code e.display

def renameMedia (request : Request RenameMediaRequest) : Handler RenameMediaResponse := do
  let ⟨fromKey, toKey⟩ ← request.intoInner
  if fromKey = "" ∨ toKey = "" then
    throw (.mk .invalidArgument "from_key and to_key are required")
  let manifest ← mapErr renameStatus (StorageEngine.rename X fromKey toKey)
  return ⟨manifest.key, manifest.totalSize, manifest.contentType⟩

def listMedia (request : Request ListRequest) : Handler ListMediaResponse := do
  let req ← request.intoInner
  let (manifests, nextCursor) ←
    mapErr internal (Index.listManifests req.keyPrefix req.pageLimit req.cursor)
  return ⟨manifests.map manifestToMetadata, nextCursor.getD ""⟩

def healthCheck (request : Request Unit) : Handler HealthCheckResponse := do
  request.intoInner
  return ⟨"ok", version, 0⟩

section
variable (ops : DashOps) (config : PlaylistConfig ℚ)

def getHlsMasterPlaylist (request : Request String) : Handler PlaylistMessage := do
  let streamId ← request.intoInner
  match getHlsMaster config streamId (← currentIndex) with
  | .notFound => throw (.mk .notFound s!"stream not found: {streamId}")
  | .ok _ body => return ⟨"application/vnd.apple.mpegurl", body⟩

def getHlsMediaPlaylist (request : Request GetVariantPlaylistRequest) : Handler PlaylistMessage := do
  let req ← request.intoInner
  match (KaidaDB.getHlsMediaPlaylist ops.toFloatOps config req.streamId req.variantId
    (← currentIndex)).1 with
  | .notFound => throw (.mk .notFound s!"variant not found: {req.variantId}")
  | .ok _ body => return ⟨"application/vnd.apple.mpegurl", body⟩

def getDashManifest (request : Request String) : Handler PlaylistMessage := do
  let streamId ← request.intoInner
  match getDashMpd ops config streamId (← currentIndex) with
  | .notFound => throw (.mk .notFound s!"stream not found: {streamId}")
  | .ok _ body => return ⟨"application/dash+xml", body⟩

def listStreams (request : Request ListRequest) : Handler ListStreamsResponse := do
  let req ← request.intoInner
  let (items, nextCursor) := KaidaDB.listStreams config.toStreamingConfig req.keyPrefix req.pageLimit
    req.cursor (← currentIndex)
  return ⟨items.map StreamListItem.streamId, nextCursor.getD ""⟩

/-- The chunks of a stream that are removed from the cache before it is deleted. -/
def streamChunks (streamId : String) (s : IndexState) : List ChunkId :=
  (Index.listPage (deletedPrefix config.toStreamingConfig streamId) 100000 "" s).1.flatMap
    MediaManifest.chunks

def deleteStream (request : Request String) : Handler DeleteStreamResponse := do
  let streamId ← request.intoInner
  let index ← currentIndex
  invalidateAll (streamChunks config streamId index)
  -- every page but the last is full
  let (variantsDeleted, segmentsDeleted) ← mapErr internal
    (KaidaDB.deleteStream X config.toStreamingConfig streamId (index.manifests.size + 1))
  return ⟨variantsDeleted, segmentsDeleted⟩

end

end Grpc

/-! ## The service -/

inductive GrpcCall where
  | storeMedia (messages : List (Option StoreMediaPayload)) (ending : Ending)
  | streamMedia (key : String) (offset length : Nat)
  | getMediaMeta (key : String)
  | deleteMedia (key : String)
  | renameMedia (message : RenameMediaRequest)
  | listMedia (message : ListRequest)
  | healthCheck
  | getHlsMasterPlaylist (streamId : String)
  | getHlsMediaPlaylist (message : GetVariantPlaylistRequest)
  | getDashManifest (streamId : String)
  | listStreams (message : ListRequest)
  | deleteStream (streamId : String)
deriving DecidableEq, Repr

inductive GrpcReply where
  | stored (response : StoreMediaResponse)
  | chunks (sent : List (Except Status MediaChunk))
  | media (response : MediaMetadata)
  | deleted (deleted : Bool)
  | renamed (response : RenameMediaResponse)
  | listed (response : ListMediaResponse)
  | health (response : HealthCheckResponse)
  | playlist (response : PlaylistMessage)
  | streams (response : ListStreamsResponse)
  | streamDeleted (response : DeleteStreamResponse)
  /-- The handler has been dropped. -/
  | nothing

/-- A call of a method; a status where it returns one. -/
def Grpc.serve (ops : DashOps) (state : AppState) (client : Client) (call : GrpcCall) :
    Handler GrpcReply := do
  let auth := checkAuth X state.serverKeyHash client
  match call with
  | .storeMedia messages ending =>
    match ← (storeMedia X state.engine ⟨auth, messages, ending⟩ : M _) with
    | none => return .nothing
    | some (.ok response) => return .stored response
    | some (.error status) => throw status
  | .streamMedia key offset length =>
    .chunks <$> ExceptT.mk (streamMedia X ⟨auth, key, offset, length⟩)
  | .getMediaMeta key => .media <$> Grpc.getMediaMeta ⟨auth, key⟩
  | .deleteMedia key => .deleted <$> Grpc.deleteMedia X ⟨auth, key⟩
  | .renameMedia message => .renamed <$> Grpc.renameMedia X ⟨auth, message⟩
  | .listMedia message => .listed <$> Grpc.listMedia ⟨auth, message⟩
  | .healthCheck => .health <$> Grpc.healthCheck ⟨auth, ()⟩
  | .getHlsMasterPlaylist streamId =>
    .playlist <$> Grpc.getHlsMasterPlaylist state.streaming ⟨auth, streamId⟩
  | .getHlsMediaPlaylist message =>
    .playlist <$> Grpc.getHlsMediaPlaylist ops state.streaming ⟨auth, message⟩
  | .getDashManifest streamId =>
    .playlist <$> Grpc.getDashManifest ops state.streaming ⟨auth, streamId⟩
  | .listStreams message => .streams <$> Grpc.listStreams state.streaming ⟨auth, message⟩
  | .deleteStream streamId => .streamDeleted <$> Grpc.deleteStream X state.streaming ⟨auth, streamId⟩

end KaidaDB
