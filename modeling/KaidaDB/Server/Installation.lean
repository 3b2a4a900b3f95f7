import KaidaDB.Server.Main

/-!
# What a deployment is for

An `Installation` has objects, and a password once one has been made. A server serves the objects to its
own host and to those who give the password that was the current one when the server was started. What is
in the key file is left only as far as the operator can tell: no password yet, a password, or a file that
was not written to its end and lets no server start.
-/

namespace KaidaDB

open Std

variable (X : Crates)

inductive KeyRecord where
  | missing
  | damaged
  | key (plaintext : String)

namespace KeyRecord

/-- What is left when a new password is written, and what is reported. -/
def write (old : KeyRecord) (io : KeyIo) (plaintext : String) : KeyRecord × Except KaidaDbError Unit :=
  match io.createDirAll, io.write with
  | .error text, _ => (old, .error (.config s!"failed to create data directory: {text}"))
  | .ok (), .notOpened text => (old, .error (.config s!"failed to write server key: {text}"))
  | .ok (), .stopped text written =>
    (if written < 64 then damaged else key plaintext,
      .error (.config s!"failed to write server key: {text}"))
  | .ok (), .done => (key plaintext, .ok ())

/-- The password that a server starts with, and whether it is new. -/
def load (record : KeyRecord) (io : KeyIo) (fresh : String) :
    KeyRecord × Except KaidaDbError (String × Option String) :=
  match record with
  | missing => ((missing.write io fresh).1, (missing.write io fresh).2.map fun _ => (fresh, some fresh))
  | damaged => (damaged, match io.readToString with
    | .error text => .error (.config s!"failed to read server key: {text}")
    | .ok () => .error (.config "server key file is corrupt (expected 64-char hex hash)"))
  | key plaintext => (key plaintext, match io.readToString with
    | .error text => .error (.config s!"failed to read server key: {text}")
    | .ok () => .ok (plaintext, none))

end KeyRecord

/-- What a running server was started with. -/
structure Started where
  config : KaidaDbConfig
  password : String
  grpcListens : Bool

structure Installation where
  record : KeyRecord
  objects : ExtTreeMap String StoredObject
  clock : Int
  server : Option Started

namespace Installation

/-- What a server started so serves. -/
def service (i : Installation) (started : Started) : Service :=
  ⟨⟨started.config.engine, started.config.streaming, hashKey X started.password⟩, i.objects, i.clock⟩

def main (args : Args) (outside : Outside) (i : Installation) : Installation × DeploymentReply :=
  let fresh := generateKey outside.draws
  match args.config.validate with
  | .error e => (i, .failed (.error e))
  | .ok () =>
    if args.regenerateKey then
      match i.record.write outside.io fresh with
      | (record, .ok ()) => ({ i with record }, .newKey fresh)
      | (record, .error e) => ({ i with record }, .failed (.error e))
    else
      match i.record.load outside.io fresh, outside.listen with
      | (record, .error e), _ => ({ i with record }, .failed (.error e))
      | (record, .ok (_, shown)), .error text => ({ i with record }, .notBound shown text)
      | (record, .ok (password, shown)), .ok () =>
        ({ i with record, server := some ⟨args.config, password, outside.grpcBind.isOk⟩ },
          .listening shown outside.grpcBind)

def step (ops : DashOps) (i : Installation) : DeploymentEvent → Installation × List DeploymentReply
  | .main args outside =>
    let (i', reply) := main args outside (if args.regenerateKey then i else { i with server := none })
    (i', [reply])
  | .stop => ({ i with server := none }, [])
  | .request request =>
    match i.server with
    | none => (i, [.connectionRefused])
    | some started =>
      if request.reaches started.grpcListens then
        let (s, reply) := (i.service X started).serve X ops request
        ({ i with objects := s.objects }, [.reply reply])
      else (i, [.connectionRefused])
  | .gcTick => (i, [])
  | .tick now => ({ i with clock := now }, [])

def run (ops : DashOps) : Installation → List DeploymentEvent → Installation × List DeploymentReply
  | i, [] => (i, [])
  | i, event :: events =>
    let (i1, replies) := i.step X ops event
    let (i2, later) := i1.run ops events
    (i2, replies ++ later)

def empty : Installation := ⟨.missing, ∅, 0, none⟩

end Installation

def DeploymentReply.Same : DeploymentReply → DeploymentReply → Prop
  | .reply r, .reply r' => r.Same r'
  | r, r' => r = r'

/-! ## Clients -/

/-- The client is known to be on the host of the server. -/
def Client.Local (client : Client) : Prop :=
  ∃ addr, client.remoteAddr = some addr ∧ addr.ip.isLoopback = true

/-- The client gives the password. -/
def Client.Gives (password : String) (client : Client) : Prop :=
  client.header "x-server-pass" = some (Utf8.encode password.toList)

/-! ## Proper events -/

def DeploymentEvent.Sized : DeploymentEvent → Prop
  | .request r => r.Sized
  | _ => True

/-- The contents that an event uploads. -/
def DeploymentEvent.body : DeploymentEvent → Bytes
  | .request r => r.body
  | _ => []

/-- The password that an event makes or that is given with it. -/
def DeploymentEvent.Password (event : DeploymentEvent) (password : Bytes) : Prop :=
  match event with
  | .main _ outside => password = Utf8.encode (generateKey outside.draws).toList
  | .request r => r.client.header "x-server-pass" = some password
  | _ => False

/-- No two different pieces of what is uploaded have the same SHA-256. -/
def UploadsDiffer (events : List DeploymentEvent) : Prop :=
  Set.InjOn X.sha256 (pieces (events.map DeploymentEvent.body))

/-- No two different passwords have the same SHA-256. -/
def PasswordsDiffer (events : List DeploymentEvent) : Prop :=
  Set.InjOn X.sha256 {d | ∃ event ∈ events, event.Password d}

end KaidaDB
