import KaidaDB.Api.Process
import KaidaDB.Server.Config
import KaidaDB.Server.ServerKey

/-!
# A deployment

What `kaidadb-server` makes of one data directory over time. `main` reads its settings and checks them;
with `--regenerate-key` it writes a new key and exits, otherwise it loads the key, opens the engine and
serves until it is stopped. Where the address of gRPC is taken, REST is served alone. A server that still
runs is stopped before another one is started.
-/

namespace KaidaDB

variable (X : Crates)

/-- A running server. -/
structure RunningServer where
  config : KaidaDbConfig
  serverKeyHash : String
  cache : ChunkCache
  /-- The address of gRPC could be bound. -/
  grpcListens : Bool

namespace RunningServer

/-- What the services of both APIs are built with. -/
def state (server : RunningServer) : AppState :=
  ⟨server.config.engine, server.config.streaming, server.serverKeyHash⟩

def process (server : RunningServer) (store : Store) : Process := ⟨server.state, server.cache, store⟩

end RunningServer

structure Args where
  /-- What `KaidaDbConfig::load` returns. -/
  config : KaidaDbConfig
  regenerateKey : Bool

/-- What a call of `main` meets outside. -/
structure Outside where
  draws : Draws
  io : KeyIo
  /-- Reading `grpc_addr`. -/
  grpcAddr : Except String Unit
  /-- Reading `rest_addr`. -/
  restAddr : Except String Unit
  restBind : Except String Unit
  /-- Binding the address of gRPC, which `serve_with_shutdown` does once REST has its listener. -/
  grpcBind : Except String Unit

/-- What the start of the servers stops at. -/
def Outside.listen (outside : Outside) : Except String Unit := do
  outside.grpcAddr
  outside.restAddr
  outside.restBind

structure Deployment where
  /-- The contents of `.server_key`. -/
  keyFile : Option Bytes
  /-- The rest of the data directory, with what a server has in memory. -/
  store : Store
  server : Option RunningServer

inductive DeploymentEvent where
  | main (args : Args) (outside : Outside)
  /-- The signal to shut down. -/
  | stop
  | request (request : ApiRequest)
  /-- The interval of the background task has passed. -/
  | gcTick
  /-- The clock shows another time. -/
  | tick (now : Int)

inductive DeploymentReply where
  /-- The server listens, and has shown the key if it is new. If gRPC cannot be served, that is logged. -/
  | listening (newKey : Option String) (grpcServer : Except String Unit)
  /-- The key is shown before an address turns out to be no address or REST not to have its own. -/
  | notBound (newKey : Option String) (text : String)
  | newKey (plaintext : String)
  | failed (e : Fail)
  | reply (reply : ApiReply)
  | connectionRefused

/-- REST is served by every server. -/
def ApiRequest.reaches (grpcListens : Bool) : ApiRequest → Bool
  | .rest _ => true
  | .grpc _ _ => grpcListens

namespace Deployment

def main (args : Args) (outside : Outside) (d : Deployment) : Deployment × DeploymentReply :=
  match args.config.validate with
  | .error e => (d, .failed (.error e))
  | .ok () =>
    if args.regenerateKey then
      match regenerateKey X outside.io outside.draws d.keyFile with
      | .ok plaintext keyFile => ({ d with keyFile }, .newKey plaintext)
      | .error e keyFile => ({ d with keyFile }, .failed (.error e))
    else
      match loadOrCreateKey X outside.io outside.draws d.keyFile with
      | .error e keyFile => ({ d with keyFile }, .failed (.error e))
      | .ok (keyHash, plaintext) keyFile =>
        match Index.openWith X d.store args.config.storage.durability with
        | .error e => ({ d with keyFile }, .failed e)
        | .ok store =>
          match outside.listen with
          | .error text => ({ d with keyFile, store }, .notBound plaintext text)
          | .ok () => (⟨keyFile, store, some ⟨args.config, keyHash, .new args.config.cache.maxSize,
                outside.grpcBind.isOk⟩⟩, .listening plaintext outside.grpcBind)

/-- What an event does, and what it is answered. -/
def step (ops : DashOps) (checks : Bool) (d : Deployment) :
    DeploymentEvent → Deployment × List DeploymentReply
  | .main args outside =>
    let (d', reply) := main X args outside (if args.regenerateKey then d else { d with server := none })
    (d', [reply])
  | .stop => ({ d with server := none }, [])
  | .request request =>
    match d.server with
    | none => (d, [.connectionRefused])
    | some server =>
      if request.reaches server.grpcListens then
        let (p, reply) := (server.process d.store).serve X ops checks request
        ({ d with store := p.store, server := some { server with cache := p.cache } }, [.reply reply])
      else (d, [.connectionRefused])
  | .gcTick =>
    match d.server with
    | none => (d, [])
    | some server =>
      if server.config.storage.gcIntervalSecs > 0 then
        match StorageEngine.gc (server.config.storage.gcGraceSecs * 10 ^ 9) d.store with
        | .ok _ store | .error _ store => ({ d with store }, [])
      else (d, [])
  | .tick now => ({ d with store := { d.store with clock := now } }, [])

/-- The events in order, with all answers. -/
def run (ops : DashOps) (checks : Bool) :
    Deployment → List DeploymentEvent → Deployment × List DeploymentReply
  | d, [] => (d, [])
  | d, event :: events =>
    let (d1, replies) := d.step X ops checks event
    let (d2, later) := d1.run ops checks events
    (d2, replies ++ later)

/-- Before the first call of `main`, with an empty data directory. -/
def empty (dataDir : String) : Deployment := ⟨none, .emptyDir dataDir (Stream'.const .ok), none⟩

end Deployment

end KaidaDB
