import KaidaDB.Server.Installation

/-!
# The command line client

Every command of `kaidadb-cli` makes one call over gRPC. `connect` fails where no server listens for it;
the interceptor puts the password into the metadata; and tonic refuses messages of more than 4 MiB, which
`get` may meet where the chunks of the server are larger. What the client reads and writes of its own host
(`LocalIo`) and whom the server sees are arguments.
-/

namespace KaidaDB

variable (X : Crates)

inductive Commands where
  | store (key file : String) (contentType : Option String)
  | get (key : String) (output : Option String)
  /-- `Meta`. -/
  | getMeta (key : String)
  | delete (key : String)
  | list (keyPrefix : String) (limit : Nat)
  | health
deriving DecidableEq, Repr

structure Cli where
  serverPass : Option String
  command : Commands
deriving DecidableEq, Repr

/-- What comes of reading a file, writing one, and writing to the standard output. -/
structure LocalIo where
  readFile : String → Except String Bytes
  writeFile : String → Except String Unit
  stdout : Except String Unit

/-- Writing what `get` has received. -/
def LocalIo.write (io : LocalIo) : Option String → Except String Unit
  | some path => io.writeFile path
  | none => io.stdout

inductive CliError where
  | transport
  | file (text : String)
  | status (status : Status)
  /-- `out_of_range`: the length that was found and the limit. -/
  | messageTooLarge (found limit : Nat)
  /-- The reply is not one of the method that was called. -/
  | protocol
deriving DecidableEq, Repr

inductive CliOutput where
  | lines (lines : List String)
  | stdout (data : Bytes)
  /-- With the line that says so. -/
  | file (path : String) (data : Bytes)
deriving DecidableEq, Repr

/-- What `get` does with the bytes it has received. -/
def CliOutput.received (data : Bytes) : Option String → CliOutput
  | some path => .file path data
  | none => .stdout data

/-! ## Requests -/

/-- What follows the last `.`, or all of it. -/
def lastPart (path : String) : String := String.ofList (path.toList.reverse.takeWhile (· ≠ '.')).reverse

def guessContentType (path : String) : String :=
  match lastPart path with
  | "mp4" => "video/mp4"
  | "mkv" => "video/x-matroska"
  | "webm" => "video/webm"
  | "avi" => "video/x-msvideo"
  | "mp3" => "audio/mpeg"
  | "flac" => "audio/flac"
  | "wav" => "audio/wav"
  | "ogg" => "audio/ogg"
  | "png" => "image/png"
  | "jpg" | "jpeg" => "image/jpeg"
  | "gif" => "image/gif"
  | "webp" => "image/webp"
  | _ => "application/octet-stream"

/-- 2 MiB. -/
def cliChunkSize : Nat := 2 * 1024 * 1024

/-- Header first, then data chunks. -/
def storeMessages (key contentType : String) (data : Bytes) : List (Option StoreMediaPayload) :=
  some (.header key contentType []) :: (Slices.slices cliChunkSize data).map fun chunk => some (.chunkData chunk)

/-- The interceptor: the metadata of a call. -/
def intercept (serverPass : Option String) : Except Status (List (String × Bytes)) :=
  match serverPass with
  | none => .ok []
  | some pass =>
    let value := Utf8.encode pass.toList
    -- visible ASCII only
    if value.all fun b => (0x20 ≤ b && b < 0x7f) || b = 0x09 then .ok [("x-server-pass", value)]
    else .error (.mk .invalidArgument "invalid server password characters")

def Commands.call (io : LocalIo) : Commands → Except CliError GrpcCall
  | .store key file contentType =>
    match io.readFile file with
    | .error text => .error (.file text)
    | .ok data => .ok (.storeMedia (storeMessages key (contentType.getD (guessContentType file)) data) .clean)
  | .get key _ => .ok (.streamMedia key 0 0)
  | .getMeta key => .ok (.getMediaMeta key)
  | .delete key => .ok (.deleteMedia key)
  | .list keyPrefix limit => .ok (.listMedia ⟨keyPrefix, limit, ""⟩)
  | .health => .ok .healthCheck

/-- The request of a command. -/
def Cli.request (cli : Cli) (remoteAddr : Option SocketAddr) (io : LocalIo) :
    Except CliError ApiRequest := do
  let call ← cli.command.call io
  match intercept cli.serverPass with
  | .error status => .error (.status status)
  | .ok headers => return .grpc ⟨remoteAddr, headers⟩ call

/-! ## Replies -/

/-- The bytes of a number as a varint. -/
def varintLen (n : Nat) : Nat := n.log2 / 7 + 1

/-- The length of an encoded message. Fields with a default value are left out. -/
def MediaChunk.encodedLen (m : MediaChunk) : Nat :=
  (if m.sequence = 0 then 0 else 1 + varintLen m.sequence) +
    (if m.data = [] then 0 else 1 + varintLen m.data.length + m.data.length) +
    (if m.offset = 0 then 0 else 1 + varintLen m.offset) + (if m.isLast then 2 else 0)

/-- `DEFAULT_MAX_RECV_MESSAGE_SIZE`: 4 MiB. -/
def maxMessageSize : Nat := 4 * 1024 * 1024

/-- The loop of `get` over the messages of the stream. -/
def collect (data : Bytes) : List (Except Status MediaChunk) → Except CliError Bytes
  | [] => .ok data
  | .error status :: _ => .error (.status status)
  | .ok chunk :: rest =>
    if maxMessageSize < chunk.encodedLen then .error (.messageTooLarge chunk.encodedLen maxMessageSize)
    else collect (data ++ chunk.data) rest

/-- `{:40}` and `{:>12}`. -/
def padRight (width : Nat) (s : String) : String := s ++ String.ofList (.replicate (width - s.length) ' ')
def padLeft (width : Nat) (s : String) : String := String.ofList (.replicate (width - s.length) ' ') ++ s

def listLine (item : MediaMetadata) : String :=
  s!"{padRight 40 item.key} {padLeft 12 (toString item.totalSize)} bytes  {item.contentType}"

def metaLines (m : MediaMetadata) : List String :=
  [s!"Key:          {m.key}", s!"Size:         {m.totalSize} bytes", s!"Chunks:       {m.chunkCount}",
    s!"Content-Type: {m.contentType}", s!"Checksum:     {m.checksum}"] ++
    if m.metadata = [] then [] else "Metadata:" :: m.metadata.map fun (k, v) => s!"  {k}: {v}"

def Commands.finish (io : LocalIo) : Commands → GrpcReply → Except CliError CliOutput
  | .store _ _ _, .stored r => .ok (.lines
      [s!"Stored '{r.key}': {r.totalSize} bytes, {r.chunkCount} chunks, checksum: {r.checksum}"])
  | .get _ output, .chunks sent => do
    let data ← collect [] sent
    (io.write output).mapError .file
    return .received data output
  | .getMeta _, .media m => .ok (.lines (metaLines m))
  | .delete key, .deleted deleted =>
    .ok (.lines [if deleted then s!"Deleted '{key}'" else s!"Key '{key}' not found"])
  | .list _ _, .listed r => .ok (.lines
      (if r.items = [] then ["No media found"]
      else r.items.map listLine ++ if r.nextCursor = "" then [] else ["(more results available)"]))
  | .health, .health r => .ok (.lines [s!"Status:  {r.status}", s!"Version: {r.version}"])
  | _, _ => .error .protocol

def Cli.response (cli : Cli) (io : LocalIo) : DeploymentReply → Except CliError CliOutput
  | .reply (.grpc (.ok reply)) => cli.command.finish io reply
  | .reply (.grpc (.error status)) => .error (.status status)
  | _ => .error .transport

/-- A command, with the deployment it is run against. -/
def Cli.run (ops : DashOps) (checks : Bool) (cli : Cli) (remoteAddr : Option SocketAddr)
    (io : LocalIo) (d : Deployment) : Deployment × Except CliError CliOutput :=
  match d.server.filter (·.grpcListens), cli.request remoteAddr io with
  | none, _ => (d, .error .transport)
  | some _, .error e => (d, .error e)
  | some _, .ok request =>
    let (d', replies) := d.step X ops checks (.request request)
    (d', match replies with
      | [reply] => cli.response io reply
      | _ => .error .transport)

end KaidaDB
