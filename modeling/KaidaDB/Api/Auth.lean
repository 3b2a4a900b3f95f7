import KaidaDB.Api.Upload

/-!
# Authentication

Requests from a loopback address need no password; all others need one whose hash is that of the server.
gRPC handlers call `check_auth`, and over REST `auth_middleware` stands before the router.
-/

namespace KaidaDB

inductive IpAddr where
  | v4 (a b c d : UInt8)
  | v6 (bits : BitVec 128)
deriving DecidableEq, Repr

/-- 127.0.0.0/8 and ::1. -/
def IpAddr.isLoopback : IpAddr → Bool
  | v4 a _ _ _ => a = 127
  | v6 bits => bits = 1

structure SocketAddr where
  ip : IpAddr
  port : UInt16
deriving DecidableEq, Repr

/-- Whom a request comes from, and its headers or metadata. -/
structure Client where
  /-- The address of the peer, if it is known. -/
  remoteAddr : Option SocketAddr
  /-- The names are in lower case. -/
  headers : List (String × Bytes)
deriving DecidableEq, Repr

/-- The first value under a name. -/
def Client.header (client : Client) (name : String) : Option Bytes :=
  (client.headers.find? fun h => h.1 = name).map Prod.snd

section
variable (X : Crates)

/-- Hash a plaintext key with SHA-256, returning hex-encoded hash. -/
def hashKey (plaintext : String) : String :=
  String.ofList (hexEncode (X.sha256 (Utf8.encode plaintext.toList)).toList)

/-- Verify a plaintext key against a stored hash. -/
def verifyKey (provided storedHash : String) : Bool := hashKey X provided = storedHash

/-- `check_auth` of the gRPC service. -/
def checkAuth (serverKeyHash : String) (client : Client) : Except Status Unit :=
  -- only a confirmed loopback peer skips auth
  let isLoopback := (client.remoteAddr.map fun addr => addr.ip.isLoopback).getD false
  if isLoopback then .ok ()
  else
    match client.header "x-server-pass" with
    | some value =>
      match headerStr value with
      | none => .error (.mk .unauthenticated "invalid server password encoding")
      | some provided =>
        if verifyKey X provided serverKeyHash then .ok ()
        else .error (.mk .unauthenticated "invalid server password")
    | none => .error (.mk .unauthenticated
        "server password required for remote access (use --server-pass)")

/-- `matches!(connect_info, Some(ConnectInfo(addr)) if addr.ip().is_loopback())`. -/
def matchesLoopback : Option SocketAddr → Bool
  | some addr => addr.ip.isLoopback
  | none => false

/-- `auth_middleware` around `next`, with `refuse` for a response of status 401. -/
def authMiddleware {α : Type} (serverKeyHash : String) (client : Client) (refuse : String → α)
    (next : α) : α :=
  if matchesLoopback client.remoteAddr then next
  else
    match client.header "x-server-pass" with
    | some value =>
      match headerStr value with
      | some provided =>
        if verifyKey X provided serverKeyHash then next else refuse "invalid server password"
      | none => refuse "invalid server password"
    | none => refuse "server password required for remote access (use X-Server-Pass header)"

/-- The peer is not known to be on this host, and gives no password with the hash. -/
structure Client.Unauthorized (serverKeyHash : String) (client : Client) : Prop where
  remote : ∀ addr, client.remoteAddr = some addr → addr.ip.isLoopback = false
  pass : ∀ value provided, client.header "x-server-pass" = some value →
    headerStr value = some provided → hashKey X provided ≠ serverKeyHash

/-- The client is let through by both. -/
def Client.Passes (serverKeyHash : String) (client : Client) : Prop :=
  checkAuth X serverKeyHash client = .ok () ∧
    ∀ {α : Type} (refuse : String → α) (next : α),
      authMiddleware X serverKeyHash client refuse next = next

/-- The client is refused by both. -/
def Client.Refused (serverKeyHash : String) (client : Client) : Prop :=
  (∃ message, checkAuth X serverKeyHash client = .error (.mk .unauthenticated message)) ∧
    ∃ body, ∀ {α : Type} (refuse : String → α) (next : α),
      authMiddleware X serverKeyHash client refuse next = refuse body

end

end KaidaDB
