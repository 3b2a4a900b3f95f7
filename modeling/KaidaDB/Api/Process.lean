import KaidaDB.Api.Service

/-!
# A server process

A `Process` holds what the handlers of both APIs share. Requests are carried out one at a time; between
them `gc` runs in the background, the clock goes on, and the process is stopped and started again on the
same directory, possibly with other settings.
-/

namespace KaidaDB

variable (X : Crates)

structure Process where
  state : AppState
  cache : ChunkCache
  store : Store

inductive ProcessEvent where
  | request (request : ApiRequest)
  /-- A pass of `spawn_gc`. -/
  | gc (grace : Nat)
  /-- The clock shows another time. -/
  | tick (now : Int)
  /-- A new process with an empty cache. -/
  | restart (state : AppState) (durability : Durability) (maxCache : Nat)

namespace Process

/-- What is left when a program has ended, with its reply. -/
def ended {α : Type} (p : Process) (reply : α → ApiReply) :
    EStateM.Result Fail Store (α × ChunkCache) → Process × ApiReply
  | .ok (a, cache) store => ({ p with cache, store }, reply a)
  | .error e store => ({ p with store }, .panicked e)

def serve (ops : DashOps) (checks : Bool) (p : Process) : ApiRequest → Process × ApiReply
  | .rest request => p.ended .rest (Rest.serve X ops checks p.state request p.cache p.store)
  | .grpc client call => p.ended .grpc (Grpc.serve X ops p.state client call p.cache p.store)

/-- What an event does, and the reply to a request. -/
def step (ops : DashOps) (checks : Bool) (p : Process) : ProcessEvent → Process × List ApiReply
  | .request request =>
    let (p', reply) := p.serve X ops checks request
    (p', [reply])
  | .gc grace =>
    match StorageEngine.gc grace p.store with
    | .ok _ store | .error _ store => ({ p with store }, [])
  | .tick now => ({ p with store := { p.store with clock := now } }, [])
  | .restart state durability maxCache =>
    match Index.openWith X p.store durability with
    | .ok store => (⟨state, .new maxCache, store⟩, [])
    | .error _ => (p, [])

/-- The events in order, with the replies to the requests. -/
def run (ops : DashOps) (checks : Bool) : Process → List ProcessEvent → Process × List ApiReply
  | p, [] => (p, [])
  | p, event :: events =>
    let (p1, replies) := p.step X ops checks event
    let (p2, later) := p1.run ops checks events
    (p2, replies ++ later)

/-- A process started on an empty directory. -/
def start (state : AppState) (dataDir : String) (maxCache : Nat) : Process :=
  ⟨state, .new maxCache, .emptyDir dataDir (Stream'.const .ok)⟩

end Process

/-! ## The same events on objects -/

namespace Service

def step (ops : DashOps) (s : Service) : ProcessEvent → Service × List ApiReply
  | .request request =>
    let (s', reply) := s.serve X ops request
    (s', [reply])
  | .gc _ => (s, [])
  | .tick now => ({ s with clock := now }, [])
  | .restart state _ _ => ({ s with state }, [])

def run (ops : DashOps) : Service → List ProcessEvent → Service × List ApiReply
  | s, [] => (s, [])
  | s, event :: events =>
    let (s1, replies) := s.step X ops event
    let (s2, later) := s1.run ops events
    (s2, replies ++ later)

end Service

/-! ## Changes -/

/-- Whom a request comes from. -/
def ApiRequest.client : ApiRequest → Client
  | .rest request => request.toClient
  | .grpc client _ => client

/-- The request asks for a change of what is under the key. -/
def ApiRequest.Names (state : AppState) (key : String) : ApiRequest → Prop
  | .rest request => match route request.method request.path with
    | .putMedia k | .deleteMedia k => k = key
    | .renameMedia => ∃ message, request.renameRequest = .ok message ∧
        (message.fromKey = key ∨ message.toKey = key)
    | .deleteStream streamId =>
      startsWith key (deletedPrefix state.streaming.toStreamingConfig streamId) = true
    | _ => False
  | .grpc _ call => match call with
    | .storeMedia (some (.header k _ _) :: _) _ | .deleteMedia k => k = key
    | .renameMedia message => message.fromKey = key ∨ message.toKey = key
    | .deleteStream streamId =>
      startsWith key (deletedPrefix state.streaming.toStreamingConfig streamId) = true
    | _ => False

/-! ## Proper events -/

/-- The contents that a request uploads. -/
def ApiRequest.body : ApiRequest → Bytes
  | .rest request => request.frames.flatten
  | .grpc _ (.storeMedia messages _) => (StoreMedia.chunks messages).flatten
  | .grpc _ _ => []

/-- Offsets, lengths and the sizes of bodies are `u64`. -/
def ApiRequest.Sized : ApiRequest → Prop
  | .grpc _ (.streamMedia _ offset length) => offset < 2 ^ 64 ∧ length < 2 ^ 64
  | request => request.body.length < 2 ^ 64

/-- The chunk size is a `usize` and not 0. -/
def StorageEngine.Sized (engine : StorageEngine) : Prop := 0 < engine.chunkSize ∧ engine.chunkSize < 2 ^ 64

def ProcessEvent.Sized : ProcessEvent → Prop
  | .request r => r.Sized
  | .restart state _ _ => state.engine.Sized
  | .gc _ | .tick _ => True

/-- The contents that an event uploads. -/
def ProcessEvent.body : ProcessEvent → Bytes
  | .request r => r.body
  | _ => []

/-- No two different pieces of what is uploaded have the same SHA-256. -/
def PiecesDiffer (events : List ProcessEvent) : Prop :=
  Set.InjOn X.sha256 (pieces (events.map ProcessEvent.body))

end KaidaDB
