import KaidaDB.Api.Process
import KaidaDB.Api.Proof.StreamMedia

/-!
# A server whose chunk files are damaged

Between two events of a process any chunk file may be gone or have other contents. A download is then not
always sent to its end: `CutShort` says what may be sent in place of the reply that is due.
-/

namespace KaidaDB

variable (X : Crates)

inductive DiskEvent where
  | process (event : ProcessEvent)
  /-- The chunk file of this name is gone, or another one is in its place. -/
  | damage (hex : String) (file : Option ChunkFile)

def DiskEvent.process? : DiskEvent → Option ProcessEvent
  | process event => some event
  | damage _ _ => none

namespace Process

def damage (p : Process) (hex : String) : Option ChunkFile → Process
  | none => { p with store := { p.store with files := p.store.files.erase hex } }
  | some file => { p with store := { p.store with files := p.store.files.insert hex file } }

def suffer (ops : DashOps) (checks : Bool) (p : Process) : DiskEvent → Process × List ApiReply
  | .process event => p.step X ops checks event
  | .damage hex file => (p.damage hex file, [])

/-- The events in order, with the replies to the requests. -/
def endure (ops : DashOps) (checks : Bool) : Process → List DiskEvent → Process × List ApiReply
  | p, [] => (p, [])
  | p, event :: events =>
    let (p1, replies) := p.suffer X ops checks event
    let (p2, later) := p1.endure ops checks events
    (p2, replies ++ later)

end Process

/-- A file put in the place of a chunk is refused by the decoder, or it has that very chunk, a piece of
what is uploaded. -/
def Detectable (events : List DiskEvent) : Prop :=
  ∀ hex f, .damage hex (some f) ∈ events → ∀ (id : ChunkId) data, id.toHex = hex →
    decodeChunk X f.bytes = .ok data →
      data ∈ pieces ((events.filterMap DiskEvent.process?).map ProcessEvent.body) ∧
        id = ChunkId.fromData X data

/-! ## Replies that are cut short -/

/-- The pieces in order, up to where an error is sent or, if `broken`, where sending just ends. -/
inductive Cut {ε α : Type} (broken : Prop) : List (Except ε α) → List α → Prop where
  | nil : Cut broken [] []
  | cons (a : α) {sent : List (Except ε α)} {whole : List α} (h : Cut broken sent whole) :
      Cut broken (.ok a :: sent) (a :: whole)
  | error (e : ε) (a : α) (whole : List α) : Cut broken [.error e] (a :: whole)
  | broken (h : broken) (a : α) (whole : List α) : Cut broken [] (a :: whole)

def Download.CutShort (got due : Download) : Prop :=
  match got.response, due.response with
  | .stream status headers body, .stream status' headers' [.ok d] =>
    status = status' ∧ headers = headers' ∧ ∃ parts, parts.flatten = d ∧ Cut (got.panic ≠ none) body parts
  | response, response' => response = response'

def RestReply.CutShort : RestReply → RestReply → Prop
  | .media got, .media due => got.CutShort due
  | reply, reply' => reply = reply'

/-- Where a range whose end is after 2^64 leaves nothing to send, its first chunk may turn out not to be
readable. -/
def GrpcReply.CutShort : GrpcReply → GrpcReply → Prop
  | .chunks sent, .chunks due =>
    (∃ whole, due = whole.map .ok ∧ Cut True sent whole) ∨ due = [] ∧ ∃ status, sent = [.error status]
  | reply, reply' => reply = reply'

/-- A reply in the place of the one that is due: only what an object is downloaded with differs from it, and
there only in where it ends. -/
def ApiReply.CutShort : ApiReply → ApiReply → Prop
  | .rest reply, .rest reply' => reply.CutShort reply'
  | .grpc (.ok reply), .grpc (.ok reply') => reply.CutShort reply'
  | .panicked _, .rest (.media _) => True
  | reply, reply' => reply = reply'

end KaidaDB
