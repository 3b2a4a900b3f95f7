import KaidaDB.Cli.Main
import KaidaDB.Server.Proof.Password

/-!
# What is stored with the client comes back

An upload that the client reports as stored is in the map of objects, with the bytes of the file
(`Service.call_stored`). It stays there until a request that is let through names its key
(`Installation.Leaves`), and `get` puts the messages together again, each of which fits into what tonic
accepts if the chunks of the server do (`collect_frames`).
-/

namespace KaidaDB

open Std

variable {X : Crates} {D : Set Bytes}

/-! ## Messages -/

theorem varintLen_le {n k : Nat} (hk : 0 < k) (h : n < 2 ^ (7 * k)) : varintLen n ≤ k := by
  unfold varintLen
  by_cases hn : n = 0
  · subst hn
    rw [Nat.log2_zero, Nat.zero_div, Nat.zero_add]
    exact hk
  · have hlog : n.log2 < 7 * k := (Nat.log2_lt hn).2 h
    omega

/-- A message is at most 24 bytes longer than its data. -/
theorem MediaChunk.encodedLen_le {m : MediaChunk} (hsequence : m.sequence < 2 ^ 32)
    (hdata : m.data.length < 2 ^ 28) (hoffset : m.offset < 2 ^ 64) :
    m.encodedLen ≤ m.data.length + 24 := by
  have h1 : varintLen m.sequence ≤ 5 := varintLen_le (by decide) (hsequence.trans (by decide))
  have h2 : varintLen m.data.length ≤ 4 := varintLen_le (by decide) hdata
  have h3 : varintLen m.offset ≤ 10 := varintLen_le (by decide) (hoffset.trans (by decide))
  unfold encodedLen
  split_ifs <;> omega

/-- **The loop of `get`** puts the parts together if each of them fits. -/
theorem collect_frames {n : Nat} (hn : n + 24 ≤ maxMessageSize) :
    ∀ (parts : List Bytes) (data : Bytes) (sequence currentOffset : Nat), sequence < 2 ^ 32 →
      currentOffset + parts.flatten.length < 2 ^ 64 → (∀ part ∈ parts, part.length ≤ n) →
      collect data ((frames sequence currentOffset parts).map .ok) = .ok (data ++ parts.flatten)
  | [], data, _, _, _, _, _ => by rw [frames, List.map_nil, collect, List.flatten_nil, List.append_nil]
  | part :: parts, data, sequence, currentOffset, hsequence, hoffset, hparts => by
    rw [List.flatten_cons, List.length_append] at hoffset
    obtain ⟨hpart, hrest⟩ := List.forall_mem_cons.1 hparts
    have hmax : maxMessageSize < 2 ^ 28 := by decide
    have hlen : MediaChunk.encodedLen ⟨sequence, part, currentOffset, parts.isEmpty⟩ ≤ part.length + 24 :=
      MediaChunk.encodedLen_le hsequence (by dsimp only; omega) (by dsimp only; omega)
    rw [frames, List.map_cons, collect, if_neg (by omega),
      collect_frames hn parts _ _ _ (Nat.mod_lt _ (by decide)) (by omega) hrest, List.flatten_cons,
      List.append_assoc]

/-- All of an object is sent in its chunks. -/
theorem StoredObject.pieces_all {o : StoredObject} (hn : 0 < o.chunkSize) :
    o.pieces 0 0 = Slices.slices o.chunkSize o.data := by
  rw [pieces, if_neg (by decide), Nat.zero_mod, Nat.sub_zero, Slices.slicesAfter_self hn, part, if_pos rfl,
    List.drop_zero]

/-- No chunk is longer than all of the object. -/
theorem StoredObject.pieces_length_le {o : StoredObject} (hn : 0 < o.chunkSize) :
    ∀ piece ∈ o.pieces 0 0, piece.length ≤ min o.chunkSize o.data.length := by
  rw [pieces_all hn]
  intro piece hpiece
  have hall := (List.sublist_flatten_of_mem hpiece).length_le
  rw [Slices.flatten_slices hn] at hall
  exact Nat.le_min.2 ⟨((Slices.length_slices hn _).1 piece hpiece).2, hall⟩

/-- **`get` from a running server.** -/
theorem Serving.get {p : Process} {s : Service} (h : Serving X D p s) (hinj : Set.InjOn X.sha256 D)
    (ops : DashOps) (checks : Bool) {client : Client} (hpasses : client.Passes X p.state.serverKeyHash)
    {key : String} {o : StoredObject} (ho : s.objects[key]? = some o)
    (hfits : min o.chunkSize o.data.length + 24 ≤ maxMessageSize) :
    ∃ sent, (p.serve X ops checks (.grpc client (.streamMedia key 0 0))).2 = .grpc (.ok (.chunks sent)) ∧
      collect [] sent = .ok o.data := by
  have hzero : 0 < 2 ^ 64 := by decide
  obtain ⟨r, cache, st, hrun, -, hr⟩ := h.streamMedia hinj key hzero hzero
  have hknown := h.known key o ho
  have hall : (o.pieces 0 0).flatten = o.data := by
    rw [StoredObject.pieces_all hknown.size, Slices.flatten_slices hknown.size]
  rw [ho] at hr
  subst hr
  refine ⟨_, ?_, (collect_frames hfits (o.pieces 0 0) [] 0 0 (by decide) ?_ ?_).trans (by rw [hall]; rfl)⟩
  · have hreply := run_map_handler
      (x := ExceptT.mk (KaidaDB.streamMedia X ⟨.ok (), key, 0, 0⟩)) hrun GrpcReply.chunks
    have hserve : Grpc.serve X ops p.state client (.streamMedia key 0 0) p.cache p.store
        = .ok (.ok (.chunks ((o.messages 0 0).map .ok)), cache) st := by
      unfold Grpc.serve
      rw [hpasses.1]
      exact hreply
    rw [Process.serve, hserve]
    rfl
  · rw [hall, Nat.zero_add]
    exact hknown.length
  · exact StoredObject.pieces_length_le hknown.size

/-! ## What is stored -/

theorem chunks_slices (data : Bytes) :
    StoreMedia.chunks ((Slices.slices cliChunkSize data).map fun chunk => some (.chunkData chunk))
      = Slices.slices cliChunkSize data := by
  rw [StoreMedia.chunks, List.filterMap_map]
  exact List.filterMap_some

theorem job_storeMessages (key contentType : String) (data : Bytes) :
    StoreMedia.job ⟨.ok (), storeMessages key contentType data, .clean⟩
      = if key = "" then .error (some (.mk .invalidArgument "key is required"))
        else .ok ⟨key, contentType, [], Slices.slices cliChunkSize data⟩ := by
  rw [← chunks_slices data]
  rfl

/-- An upload that is answered with a response has been made. -/
theorem Service.put_stored {s : Service} {job : Upload.Job} {response : StoreMediaResponse}
    (h : storeReply .clean ((s.put job).2.map (·.manifest X job.key)) = .ok (.stored response)) :
    (s.put job).1.objects[job.key]? = some (s.object job) := by
  revert h
  unfold put
  cases Spec.mayBegin s.state.engine job.key with
  | error e => cases e <;> exact nofun
  | ok u =>
    cases Spec.mayWrite s.state.engine.maxObjectSize [] job.frames.flatten with
    | error e => cases e <;> exact nofun
    | ok u =>
      intro _
      dsimp only
      rw [FinMap.get_insert, if_pos rfl]

/-- What the client reports as stored is in the map of objects. -/
theorem Service.call_stored {s : Service} {ops : DashOps} {key contentType : String} {data : Bytes}
    {response : StoreMediaResponse}
    (h : (s.call X ops (.storeMedia (storeMessages key contentType data) .clean)).2 = .ok (.stored response)) :
    (s.call X ops (.storeMedia (storeMessages key contentType data) .clean)).1.objects[key]?
      = some ⟨data, contentType, [], s.state.engine.chunkSize, s.now, s.now⟩ := by
  rw [Service.call, job_storeMessages] at h ⊢
  by_cases hkey : key = ""
  · rw [if_pos hkey] at h
    cases h
  · rw [if_neg hkey] at h ⊢
    dsimp only at h ⊢
    rw [Service.put_stored h, Service.object, Slices.flatten_slices (by decide)]

theorem Service.serve_stored {s : Service} {ops : DashOps} {client : Client} {key contentType : String}
    {data : Bytes} {response : StoreMediaResponse}
    (h : (s.serve X ops (.grpc client (.storeMedia (storeMessages key contentType data) .clean))).2
      = .grpc (.ok (.stored response))) :
    (s.serve X ops (.grpc client (.storeMedia (storeMessages key contentType data) .clean))).1.objects[key]?
      = some ⟨data, contentType, [], s.state.engine.chunkSize, s.now, s.now⟩ := by
  have hreply : (s.grpc X ops client (.storeMedia (storeMessages key contentType data) .clean)).2
      = .ok (.stored response) := ApiReply.grpc.inj h
  show (s.grpc X ops client (.storeMedia (storeMessages key contentType data) .clean)).1.objects[key]? = _
  unfold Service.grpc at hreply ⊢
  cases hauth : checkAuth X s.state.serverKeyHash client with
  | error status =>
    rw [hauth] at hreply
    cases hreply
  | ok u =>
    rw [hauth] at hreply
    exact Service.call_stored hreply

/-! ## What stays -/

/-- The event is a request that is let through and names the key. -/
def Installation.Touches (X : Crates) (i : Installation) (key : String) (event : DeploymentEvent) : Prop :=
  ∃ request started, event = .request request ∧ i.server = some started ∧
    request.reaches started.grpcListens = true ∧ request.client.Passes X (hashKey X started.password) ∧
    request.Names (i.service X started).state key

/-- No event touches the key. -/
def Installation.Leaves (X : Crates) (ops : DashOps) (key : String) : Installation → List DeploymentEvent → Prop
  | _, [] => True
  | i, event :: events => ¬ i.Touches X key event ∧ (i.step X ops event).1.Leaves X ops key events

/-- Events that are no requests. -/
theorem Installation.Leaves.quiet {ops : DashOps} {key : String} : ∀ {events : List DeploymentEvent}
    {i : Installation}, (∀ event ∈ events, ∀ request, event ≠ .request request) → i.Leaves X ops key events
  | [], _, _ => trivial
  | event :: events, i, h => by
    obtain ⟨hevent, hrest⟩ := List.forall_mem_cons.1 h
    refine ⟨fun htouches => ?_, quiet hrest⟩
    obtain ⟨request, -, heq, -⟩ := htouches
    exact hevent request heq

theorem Installation.Leaves.objects {ops : DashOps} {key : String} : ∀ {events : List DeploymentEvent}
    {i : Installation}, i.Leaves X ops key events → (i.run X ops events).1.objects[key]? = i.objects[key]?
  | [], _, _ => rfl
  | event :: events, i, ⟨hevent, hrest⟩ => by
    have hstep : (i.step X ops event).1.objects[key]? = i.objects[key]? :=
      not_not.1 fun hchange => hevent (Installation.step_objects ops event hchange)
    exact (Leaves.objects hrest).trans hstep

/-! ## Commands -/

/-- The settings of a running server are those of the installation. -/
theorem Deployed.server_some {d : Deployment} {i : Installation} (h : Deployed X D d i)
    {started : Started} (hi : i.server = some started) :
    ∃ server, d.server = some server ∧ StartedWith X D d.store i.objects i.clock server started := by
  have hserver := h.server
  rw [hi] at hserver
  cases hd : d.server with
  | none =>
    rw [hd] at hserver
    cases hserver
  | some server =>
    rw [hd] at hserver
    cases hserver with
    | some hstarted => exact ⟨server, rfl, hstarted⟩

theorem Deployment.run_append (ops : DashOps) (checks : Bool) : ∀ (events later : List DeploymentEvent)
    (d : Deployment), (d.run X ops checks (events ++ later)).1
      = ((d.run X ops checks events).1.run X ops checks later).1
  | [], _, _ => rfl
  | event :: events, later, d => run_append ops checks events later (d.step X ops checks event).1

theorem Cli.request_ok {cli : Cli} {remoteAddr : Option SocketAddr} {io : LocalIo} {request : ApiRequest}
    (h : cli.request remoteAddr io = .ok request) :
    ∃ call headers, cli.command.call io = .ok call ∧ intercept cli.serverPass = .ok headers ∧
      request = .grpc ⟨remoteAddr, headers⟩ call := by
  unfold Cli.request at h
  cases hcall : cli.command.call io with
  | error e =>
    rw [hcall] at h
    cases h
  | ok call =>
    rw [hcall] at h
    cases hheaders : intercept cli.serverPass with
    | error status =>
      rw [hheaders] at h
      cases h
    | ok headers =>
      rw [hheaders] at h
      cases h
      exact ⟨call, headers, rfl, rfl, rfl⟩

/-- What a command prints, where its request is made. -/
theorem Cli.run_eq {cli : Cli} {remoteAddr : Option SocketAddr} {io : LocalIo}
    {request : ApiRequest} (hrequest : cli.request remoteAddr io = .ok request) {d : Deployment}
    {server : RunningServer} (hd : d.server = some server) (hlistens : server.grpcListens = true)
    (ops : DashOps) (checks : Bool) :
    (cli.run X ops checks remoteAddr io d).2
      = cli.response io (.reply ((server.process d.store).serve X ops checks request).2) := by
  obtain ⟨call, headers, -, -, rfl⟩ := Cli.request_ok hrequest
  rw [Cli.run, hd, Option.filter_some, if_pos hlistens, hrequest]
  dsimp only
  rw [Deployment.step, hd]
  dsimp only
  rw [ApiRequest.reaches, if_pos hlistens]

/-- No command succeeds where gRPC is not listened for. -/
theorem Cli.run_listens {cli : Cli} {remoteAddr : Option SocketAddr} {io : LocalIo} {ops : DashOps}
    {checks : Bool} {d : Deployment} {server : RunningServer} (hd : d.server = some server)
    {output : CliOutput} (h : (cli.run X ops checks remoteAddr io d).2 = .ok output) :
    server.grpcListens = true := by
  by_contra hnot
  rw [Cli.run, hd, Option.filter_some, if_neg hnot] at h
  cases h

/-- A reply that `store` takes for a success. -/
theorem response_store {serverPass : Option String} {key file : String} {contentType : Option String}
    {io : LocalIo} {reply : ApiReply} {output : CliOutput}
    (h : (Cli.mk serverPass (.store key file contentType)).response io (.reply reply) = .ok output) :
    ∃ response, reply = .grpc (.ok (.stored response)) := by
  rcases reply with reply | ⟨status | reply⟩ | e
  · cases h
  · cases h
  · cases reply <;> first | exact ⟨_, rfl⟩ | cases h
  · cases h

theorem same_stored {response : StoreMediaResponse} {reply : ApiReply}
    (h : (ApiReply.grpc (.ok (.stored response))).Same reply) :
    reply = .grpc (.ok (.stored response)) := by
  rcases reply with reply | ⟨status | reply⟩ | e
  · cases h
  · cases h
  · exact h.symm
  · cases h

theorem intercept_visible {password : String} (hvisible : IsVisible password) :
    intercept (some password) = .ok [("x-server-pass", Utf8.encode password.toList)] := by
  have hstr := headerStr_encode hvisible
  unfold headerStr at hstr
  unfold intercept
  dsimp only
  split_ifs at hstr ⊢
  rfl

/-- A server with this password lets the client in: the interceptor takes what the client has for a password,
if it has one, and the request passes. -/
def Cli.LetIn (X : Crates) (password : String) (cli : Cli) (remoteAddr : Option SocketAddr) : Prop :=
  ∃ headers, intercept cli.serverPass = .ok headers ∧
    Client.Passes X (hashKey X password) ⟨remoteAddr, headers⟩

/-- The password is enough, wherever the client is. -/
theorem Cli.LetIn.of_password {password : String} (hvisible : IsVisible password) (command : Commands)
    (remoteAddr : Option SocketAddr) : LetIn X password ⟨some password, command⟩ remoteAddr :=
  ⟨_, intercept_visible hvisible, passes_of_gives hvisible rfl⟩

/-- **`store`** that succeeds. -/
theorem Deployed.cli_store {d : Deployment} {i : Installation} (h : Deployed X D d i)
    (hinj : Set.InjOn X.sha256 D) (ops : DashOps) (checks : Bool) {serverPass : Option String}
    {key file : String} {contentType : Option String} {remoteAddr : Option SocketAddr}
    {io : LocalIo} {data : Bytes} (hread : io.readFile file = .ok data) {request : ApiRequest}
    (hrequest : (Cli.mk serverPass (.store key file contentType)).request remoteAddr io = .ok request)
    (hsized : request.Sized) (hD : ∀ q, q <:+: request.body → q ∈ D) {output : CliOutput}
    (hstored : ((Cli.mk serverPass (.store key file contentType)).run X ops checks remoteAddr io d).2
      = .ok output) {started : Started} (hi : i.server = some started) :
    ∃ o : StoredObject, (i.step X ops (.request request)).1.objects[key]? = some o ∧ o.data = data ∧
      o.chunkSize = started.config.storage.chunkSize := by
  obtain ⟨server, hd, hstarted⟩ := h.server_some hi
  have hlistens := Cli.run_listens hd hstored
  rw [Cli.run_eq hrequest hd hlistens] at hstored
  obtain ⟨response, hreply⟩ := response_store hstored
  obtain ⟨call, headers, hcall, -, rfl⟩ := Cli.request_ok hrequest
  rw [Commands.call, hread] at hcall
  cases hcall
  obtain ⟨-, hsame⟩ := hstarted.serving.serve hinj ops checks _ hsized hD
  rw [hreply, hstarted.state_eq] at hsame
  have hobject := Service.serve_stored (same_stored hsame)
  rw [Installation.step, hi]
  dsimp only
  rw [ApiRequest.reaches, if_pos (hstarted.grpcListens ▸ hlistens)]
  exact ⟨_, hobject, rfl, rfl⟩

/-- **`get`** from a running server that lets the client through. -/
theorem Deployed.cli_get {d : Deployment} {i : Installation} (h : Deployed X D d i)
    (hinj : Set.InjOn X.sha256 D) (ops : DashOps) (checks : Bool) {serverPass : Option String}
    {key : String} {output : Option String} {remoteAddr : Option SocketAddr} {io : LocalIo}
    (hwrite : io.write output = .ok ()) {started : Started} (hi : i.server = some started)
    (hlistens : started.grpcListens = true)
    (hlet : Cli.LetIn X started.password ⟨serverPass, .get key output⟩ remoteAddr)
    {o : StoredObject} (ho : i.objects[key]? = some o)
    (hfits : min o.chunkSize o.data.length + 24 ≤ maxMessageSize) :
    ((Cli.mk serverPass (.get key output)).run X ops checks remoteAddr io d).2
      = .ok (.received o.data output) := by
  obtain ⟨server, hd, hstarted⟩ := h.server_some hi
  obtain ⟨headers, hheaders, hpasses⟩ := hlet
  have hrequest : (Cli.mk serverPass (.get key output)).request remoteAddr io
      = .ok (.grpc ⟨remoteAddr, headers⟩ (.streamMedia key 0 0)) := by
    rw [Cli.request, hheaders]
    rfl
  rw [Cli.run_eq hrequest hd (hstarted.grpcListens.trans hlistens)]
  have hpasses : Client.Passes X (server.process d.store).state.serverKeyHash ⟨remoteAddr, headers⟩ := by
    rw [RunningServer.process, hstarted.state_eq]
    exact hpasses
  obtain ⟨sent, hreply, hcollect⟩ := hstarted.serving.get hinj ops checks hpasses ho hfits
  rw [hreply, Cli.response, Commands.finish, hcollect]
  dsimp only [bind, Except.bind]
  rw [hwrite]
  rfl

/-- **What is stored with the client comes back.** In every run of a deployment: a file that `store` has
reported as stored is given back unchanged by a later `get` that the server lets in, as long as no request
that is let through names its key in between; over further uploads, renames, passes of `gc`, restarts with
other settings and new keys. The messages must fit into what tonic accepts, which files of up to 4 MiB and
servers with chunks of up to 4 MiB see to, but for 24 bytes; and what is received must be written. -/
theorem stored_file_comes_back (hX : X.Lawful) (ops : DashOps) (checks : Bool) (dataDir : String)
    (before between : List DeploymentEvent) (storePass : Option String) (key file : String)
    (contentType : Option String) (storeAddr : Option SocketAddr) (storeIo : LocalIo)
    (data : Bytes) (hread : storeIo.readFile file = .ok data) (request : ApiRequest)
    (hrequest : (Cli.mk storePass (.store key file contentType)).request storeAddr storeIo = .ok request)
    (getPass : Option String) (output : Option String) (getAddr : Option SocketAddr) (getIo : LocalIo)
    (hwrite : getIo.write output = .ok ())
    (hsized : ∀ event ∈ before ++ .request request :: between, event.Sized)
    (hdiffer : UploadsDiffer X (before ++ .request request :: between)) :
    let d := ((Deployment.empty dataDir).run X ops checks before).1
    let i := (Installation.empty.run X ops before).1
    let i' := (i.step X ops (.request request)).1
    ∀ stored started started',
      ((Cli.mk storePass (.store key file contentType)).run X ops checks storeAddr storeIo d).2 = .ok stored →
      i.server = some started → min started.config.storage.chunkSize data.length + 24 ≤ maxMessageSize →
      i'.Leaves X ops key between → (i'.run X ops between).1.server = some started' →
      started'.grpcListens = true → Cli.LetIn X started'.password ⟨getPass, .get key output⟩ getAddr →
      ((Cli.mk getPass (.get key output)).run X ops checks getAddr getIo
        ((Deployment.empty dataDir).run X ops checks (before ++ .request request :: between)).1).2
        = .ok (.received data output) := by
  intro d i i' stored started started' hstored hi hfits hleaves hi' hlistens hlet
  obtain ⟨hsizedBefore, hsized⟩ := List.forall_mem_append.1 hsized
  obtain ⟨hsizedRequest, hsizedBetween⟩ := List.forall_mem_cons.1 hsized
  obtain ⟨hpiecesBefore, hpieces⟩ := List.forall_mem_append.1 fun event he q (hq : q <:+: event.body) =>
    (⟨_, List.mem_map_of_mem he, hq⟩ : q ∈ pieces ((before ++ .request request :: between).map
      DeploymentEvent.body))
  obtain ⟨hpiecesRequest, hpiecesBetween⟩ := List.forall_mem_cons.1 hpieces
  obtain ⟨hd, -⟩ := Deployed.run hX hdiffer ops checks before (.empty dataDir) hsizedBefore hpiecesBefore
  obtain ⟨hd', -⟩ := hd.step hX hdiffer ops checks (.request request) hsizedRequest hpiecesRequest
  obtain ⟨hd'', -⟩ := hd'.run hX hdiffer ops checks between hsizedBetween hpiecesBetween
  obtain ⟨o, ho, rfl, hsize⟩ :=
    hd.cli_store hdiffer ops checks hread hrequest hsizedRequest hpiecesRequest hstored hi
  rw [Deployment.run_append]
  exact hd''.cli_get hdiffer ops checks hwrite hi' hlistens hlet (hleaves.objects.trans ho) (hsize ▸ hfits)

/-- The request of `store a a.png` on the host of the server, for a file of two bytes. -/
def storedOnHost : ApiRequest :=
  .grpc localClient (.storeMedia (storeMessages "a" "image/png" [1, 2]) .clean)

/-- The host of the client has the file, and can be written to. -/
def homeIo : LocalIo := ⟨fun _ => .ok [1, 2], fun _ => .ok (), .ok ()⟩

/-- The file comes back to another host after a pass of `gc` and a restart. -/
theorem stored_file_comes_back_restarted :
    ((Cli.mk (some (generateKey smooth.draws)) (.get "a" (some "copy"))).run .reference exactSeconds true
      (some ⟨.v4 10 0 0 1, 9⟩) homeIo
      ((Deployment.empty "data").run .reference exactSeconds true ([.main ⟨{}, false⟩ smooth] ++
        .request storedOnHost :: [.gcTick, .stop, .main ⟨{}, false⟩ smooth])).1).2
      = .ok (.received [1, 2] (some "copy")) :=
  stored_file_comes_back Crates.reference_lawful exactSeconds true "data" [.main ⟨{}, false⟩ smooth]
    [.gcTick, .stop, .main ⟨{}, false⟩ smooth] none "a" "a.png" none localClient.remoteAddr
    homeIo [1, 2] rfl storedOnHost rfl (some (generateKey smooth.draws)) (some "copy")
    (some ⟨.v4 10 0 0 1, 9⟩) homeIo rfl
    (by
      simp only [List.cons_append, List.nil_append, List.forall_mem_cons, List.not_mem_nil, false_implies,
        implies_true, and_true]
      exact ⟨trivial, (by decide : 2 < 2 ^ 64), trivial, trivial, trivial⟩)
    (reference_free (by decide +kernel))
    (.lines ["Stored 'a': 2 bytes, 1 chunks, checksum: " ++
      String.ofList (hexEncode (Crates.reference.sha256 [1, 2]).toList)]) ⟨{}, generateKey smooth.draws, true⟩
    ⟨{}, generateKey smooth.draws, true⟩ (by decide +kernel) rfl (by decide) (.quiet (by simp)) rfl rfl
    (.of_password (isVisible_generateKey _) _ _)

end KaidaDB
