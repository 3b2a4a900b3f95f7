import KaidaDB.Api.Rest

/-!
# Objects stored over one API and asked for over the other

A server gets calls over both APIs. `GrpcUpload` is a run of one in which an object is stored by
`store_media` and kept; REST requests for it are to be answered with the object.
-/

namespace KaidaDB

variable (X : Crates)

/-- A run of a server in which `store_media` commits an object, and what is under its key stays as it
is. -/
structure GrpcUpload (ops : DashOps) where
  engine : StorageEngine
  dataDir : String
  maxSize : Nat
  before : List ServerAction
  state : AppState
  client : Client
  key : String
  contentType : String
  metadata : List (String × String)
  /-- The messages after the header. -/
  messages : List (Option StoreMediaPayload)
  ending : Ending
  response : StoreMediaResponse
  /-- The store after the commit. -/
  committed : Store
  later : List ServerAction
  sized : 0 < engine.chunkSize
  beforeSized : ∀ call ∈ before.filterMap ServerAction.call?, call.Sized
  laterSized : ∀ call ∈ later.filterMap ServerAction.call?, call.Sized
  sameEngine : state.engine = ((Server.start engine dataDir maxSize).run X before).world.engine
  stored : let s := (Server.start engine dataDir maxSize).run X before
    Grpc.serve X ops state client
        (.storeMedia (some (.header key contentType metadata) :: messages) ending) s.cache s.world.store
      = .ok (.ok (.stored response), s.cache) committed
  kept : let s := (Server.start engine dataDir maxSize).run X before
    (Server.run X { s with world.store := committed } later).world.store.index.manifests[key]?
      = committed.index.manifests[key]?

namespace GrpcUpload

variable {X} {ops : DashOps} (u : GrpcUpload X ops)

/-- The contents of the object. -/
def data : Bytes := (StoreMedia.chunks u.messages).flatten

/-- The server that is asked for the object. -/
def server : Server :=
  Server.run X { (Server.start u.engine u.dataDir u.maxSize).run X u.before with
    world.store := u.committed } u.later

/-- The calls on the engine, with the upload as one call. -/
def calls : List Call :=
  u.before.filterMap ServerAction.call? ++
    .store u.key u.data u.contentType u.metadata :: u.later.filterMap ServerAction.call?

end GrpcUpload

/-- A path of an object that has all of its key escaped, behind the slash that is stripped. -/
def mediaPath (key : String) : String :=
  "/v1/media/" ++ String.ofList ('/' :: Percent.escape (Utf8.encode key.toList))

/-- A request that is let through to an endpoint. -/
structure RestRequest.Reaches (state : AppState) (request : RestRequest) (method : Method)
    (endpoint : Endpoint) : Prop where
  method : request.method = method
  endpoint : route request.method request.path = endpoint
  passes : request.toClient.Passes X state.serverKeyHash

/-- The object with contents `d`, as a response of status 200. -/
def RestReply.IsObject (contentType : String) (d : Bytes) : RestReply → Prop
  | .media download => ∃ (headers : List (String × String)) (body : List Bytes),
      download.response = .stream 200 headers (body.map .ok) ∧ body.flatten = d ∧
      headers.lookup "content-type" = some contentType ∧
      headers.lookup "content-length" = some (toString d.length)
  | _ => False

/-- The headers of the object with contents `d`, as a response of status 200. -/
def RestReply.DescribesObject (contentType : String) (metadata : List (String × String)) (d : Bytes) :
    RestReply → Prop
  | .head headers => headers.lookup "content-type" = some contentType ∧
      headers.lookup "content-length" = some (toString d.length) ∧
      ∀ p ∈ metadata, ("X-KaidaDB-Meta-" ++ p.1, p.2) ∈ headers
  | _ => False

end KaidaDB
