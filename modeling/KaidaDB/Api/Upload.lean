import KaidaDB.Storage.IndexRun
import KaidaDB.Storage.World

/-!
# Uploads

The handlers that store an object, REST `put_media` and gRPC `store_media`. Both hand the frames of the
request body over a channel to a blocking worker, which writes them to a session and commits it once the
channel is closed. A handler closes the channel at the end of the body, when reading the body fails, and by
being dropped itself: `received` is the same for every `Ending`. It also stops reading when a frame cannot
be handed over because the worker has stopped. The channel takes some frames more, so when that is seen is
a race, which `refused` leaves open.
-/

namespace KaidaDB

variable (X : Crates)

/-- How a body ends after its frames. -/
inductive Ending where
  | clean
  /-- Reading it fails with this message; `refused` if the handler has seen before that the worker has
  stopped, and reads no further. -/
  | readError (text : String) (refused : Bool)
  /-- The handler is dropped: the client is gone, or the timeout of the router has passed. -/
  | dropped
deriving DecidableEq, Repr

/-- What `blocking_recv` returns to the worker: the frames, and `None` once the sender is gone. -/
def received (frames : List Bytes) : Ending → List (Option Bytes)
  | .clean | .readError _ _ | .dropped => frames.map some ++ [none]

/-- `to_string` of an error. -/
def KaidaDbError.display : KaidaDbError → String
  | .notFound msg => s!"key not found: {msg}"
  | .alreadyExists msg => s!"key already exists: {msg}"
  | .invalidKey msg => s!"invalid key: {msg}"
  | .tooLarge msg => s!"object too large: {msg}"
  | .storage msg => s!"storage error: {msg}"
  | .chunkIntegrity chunkId detail => s!"chunk integrity error: chunk {chunkId} — {detail}"
  | .io msg => s!"io error: {msg}"
  | .serialization msg => s!"serialization error: {msg}"
  | .invalidChunkFormat msg => s!"invalid chunk format: {msg}"
  | .config msg => s!"configuration error: {msg}"
  | .unauthorized msg => s!"unauthorized: {msg}"
  | .internal msg => s!"internal error: {msg}"

/-! ## The worker -/

/-- The loop of the worker: the session is aborted at the first frame it does not take. -/
def uploadLoop : List (Option Bytes) → SM Unit
  | some chunk :: rest => do
    tryCatch (StoreSession.write X chunk) fun
      | .error e => do
        StoreSession.abort X
        throw (.error e)
      | e => throw e
    uploadLoop rest
  | none :: _ | [] => pure ()

/-- What the worker is started with. -/
structure Upload.Job where
  key : String
  contentType : String
  metadata : List (String × String)
  frames : List Bytes
deriving DecidableEq, Repr

def uploadWorker (engine : StorageEngine) (job : Upload.Job) (ending : Ending) :
    M MediaManifest := do
  let session ← engine.beginStore job.key job.contentType job.metadata
  withSession session do
    uploadLoop X (received job.frames ending)
    StoreSession.finish X

/-- Awaiting the worker: its result, or the way it failed. -/
def join {α : Type} (x : M α) : M (Except Fail α) :=
  tryCatch (.ok <$> x) fun e => pure (.error e)

/-! ## REST -/

structure PutMedia where
  rawKey : String
  /-- The headers, with lower-case names. -/
  headers : List (String × Bytes)
  frames : List Bytes
  ending : Ending
deriving DecidableEq, Repr

inductive RestResponse where
  | created (key : String) (totalSize chunkCount : Nat) (checksum : String)
  | text (status : Nat) (body : String)
  /-- 500 with `upload task failed` and the text of tokio's `JoinError`. -/
  | taskFailed (e : Fail)
deriving DecidableEq, Repr

/-- Map a storage error to an HTTP response. -/
def restError (e : KaidaDbError) : RestResponse :=
  let code := match e with
    | .notFound _ => 404
    | .alreadyExists _ => 409
    | .invalidKey _ => 400
    | .tooLarge _ => 413
    | .unauthorized _ => 401
    | _ => 500
  .text code e.display

/-- Wildcard captures include a leading `/`. -/
def normalizeKey (raw : String) : String :=
  match raw.toList with
  | '/' :: rest => String.ofList rest
  | _ => raw

/-- `HeaderValue::to_str`: visible ASCII only. -/
def headerStr (value : Bytes) : Option String :=
  if value.all fun b => (0x20 ≤ b && b < 0x7f) || b = 0x09 then
    some (String.ofList (value.map fun b => Char.ofNat b.toNat))
  else none

/-- `HashMap::insert` on the list of entries. -/
def insertEntry (entries : List (String × String)) (key value : String) : List (String × String) :=
  if entries.any fun p => p.1 = key then
    entries.map fun p => if p.1 = key then (key, value) else p
  else entries ++ [(key, value)]

/-- The custom metadata of the `x-kaidadb-meta-*` headers. -/
def headerMetadata (headers : List (String × Bytes)) : List (String × String) :=
  headers.foldl (fun entries h =>
    match h.1.dropPrefix? "x-kaidadb-meta-", headerStr h.2 with
    | some metaKey, some v => insertEntry entries metaKey.toString v
    | _, _ => entries) []

namespace PutMedia

def contentType (request : PutMedia) : String :=
  ((request.headers.find? fun h => h.1 = "content-type").bind fun h => headerStr h.2).getD
    "application/octet-stream"

def job (request : PutMedia) : Upload.Job where
  key := normalizeKey request.rawKey
  contentType := request.contentType
  metadata := headerMetadata request.headers
  frames := request.frames

end PutMedia

/-- The response to what the worker has returned. -/
def uploadResponse : Except Fail MediaManifest → RestResponse
  | .ok m => .created m.key m.totalSize m.chunkCount m.checksum
  | .error (.error e) => restError e
  | .error e => .taskFailed e

/-- `put_media`; no response if the handler is dropped. -/
def putMedia (engine : StorageEngine) (request : PutMedia) : M (Option RestResponse) := do
  let result ← join (uploadWorker X engine request.job request.ending)
  match request.ending with
  | .dropped => return none
  | .readError text refused =>
    -- only a worker that has failed refuses frames
    if refused && !result.isOk then return some (uploadResponse result)
    return some (.text 400 s!"body read error: {text}")
  | .clean => return some (uploadResponse result)

/-! ## gRPC -/

inductive GrpcCode where
  | internal
  | invalidArgument
  | notFound
  | alreadyExists
  | resourceExhausted
  | unauthenticated
deriving DecidableEq, Repr

inductive Status where
  | mk (code : GrpcCode) (message : String)
  /-- `internal` with `upload task failed` and the text of tokio's `JoinError`. -/
  | taskFailed (e : Fail)
deriving DecidableEq, Repr

/-- Map a storage error to a gRPC status. -/
def statusFrom (e : KaidaDbError) : Status :=
  let code := match e with
    | .notFound _ => .notFound
    | .alreadyExists _ => .alreadyExists
    | .invalidKey _ => .invalidArgument
    | .tooLarge _ => .resourceExhausted
    | .unauthorized _ => .unauthenticated
    | _ => .internal
  .mk code e.display

/-- The `request` of a `StoreMediaRequest`. -/
inductive StoreMediaPayload where
  | header (key contentType : String) (metadata : List (String × String))
  | chunkData (data : Bytes)
deriving DecidableEq, Repr

structure StoreMedia where
  /-- What `check_auth` returns for the request. -/
  auth : Except Status Unit
  /-- The messages, each with its payload if it has one. -/
  messages : List (Option StoreMediaPayload)
  ending : Ending

structure StoreMediaResponse where
  key : String
  totalSize : Nat
  chunkCount : Nat
  checksum : String
deriving DecidableEq, Repr

namespace StoreMedia

/-- The chunks among the messages; other headers are ignored. -/
def chunks (messages : List (Option StoreMediaPayload)) : List Bytes :=
  messages.filterMap fun
    | some (.chunkData data) => some data
    | _ => none

/-- What happens before the worker is started: its job, or the handler's result (`none` if it is
dropped). -/
def job (request : StoreMedia) : Except (Option Status) Upload.Job :=
  match request.auth with
  | .error status => .error (some status)
  | .ok () =>
    match request.messages, request.ending with
    | [], .readError text _ => .error (some (.mk .internal text))
    | [], .dropped => .error none
    | some (.header key contentType metadata) :: rest, _ =>
      if key = "" then .error (some (.mk .invalidArgument "key is required"))
      else .ok ⟨key, contentType, metadata, chunks rest⟩
    | _, _ => .error (some (.mk .invalidArgument "first message must be a header"))

end StoreMedia

/-- What `store_media` makes of the result of the worker. -/
def storeResponse : Except Fail MediaManifest → Except Status StoreMediaResponse
  | .ok m => .ok ⟨m.key, m.totalSize, m.chunkCount, m.checksum⟩
  | .error (.error e) => .error (statusFrom e)
  | .error e => .error (.taskFailed e)

/-- `store_media`; no result if the handler is dropped. A message that cannot be read returns at once
and leaves the worker running. -/
def storeMedia (engine : StorageEngine) (request : StoreMedia) :
    M (Option (Except Status StoreMediaResponse)) := do
  match request.job with
  | .error status => return status.map .error
  | .ok job =>
    let result ← join (uploadWorker X engine job request.ending)
    match request.ending with
    | .dropped => return none
    | .readError text refused =>
      if refused && !result.isOk then return some (storeResponse result)
      return some (.error (.mk .internal text))
    | .clean => return some (storeResponse result)

/-! ## Either of them -/

inductive UploadRequest where
  | rest (request : PutMedia)
  | grpc (request : StoreMedia)

namespace UploadRequest

def ending : UploadRequest → Ending
  | rest request => request.ending
  | grpc request => request.ending

/-- The job of the worker, if it is started. -/
def job : UploadRequest → Option Upload.Job
  | rest request => some request.job
  | grpc request => request.job.toOption

def run (engine : StorageEngine) : UploadRequest → M Unit
  | rest request => discard (putMedia X engine request)
  | grpc request => discard (storeMedia X engine request)

end UploadRequest

/-- The world when the worker has finished. -/
def World.upload (w : World) (request : UploadRequest) : World :=
  { w with store := storeAfter (request.run X w.engine w.store) }

end KaidaDB
