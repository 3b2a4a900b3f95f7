import KaidaDB.Api.Proof.Changes
import KaidaDB.Server.Proof.ServerKey

/-!
# A deployment is an installation

`Deployed X D d i`: the key file is what is recorded, the data directory holds the objects, and a server
that runs has the hash of the password it was started with. Every event keeps it and is answered alike
(`Deployed.step`): a start and a new key by what the key file is read as, a request by `Serving.serve`.
-/

namespace KaidaDB

open Std

variable {X : Crates} {D : Set Bytes}

/-! ## Requests leave the clock -/

namespace Service

variable {s : Service}

theorem put_clock (job : Upload.Job) : (s.put job).1.clock = s.clock := by
  unfold put
  cases Spec.mayBegin s.state.engine job.key with
  | error e => rfl
  | ok u => cases Spec.mayWrite s.state.engine.maxObjectSize [] job.frames.flatten <;> rfl

theorem rename_clock (fromKey toKey : String) : (s.rename fromKey toKey).1.clock = s.clock := by
  unfold rename
  cases keyError? toKey with
  | some e => rfl
  | none =>
    by_cases hne : fromKey = toKey
    · rw [if_pos hne]
    · rw [if_neg hne]
      cases s.objects[fromKey]? with
      | none => rfl
      | some o =>
        dsimp only
        split_ifs <;> rfl

theorem endpoint_clock (ops : DashOps) (request : RestRequest) (endpoint : Endpoint) :
    (s.endpoint X ops request endpoint).1.clock = s.clock := by
  cases endpoint with
  | putMedia key => exact put_clock _
  | renameMedia =>
    unfold Service.endpoint
    cases request.renameRequest with
    | error e => rfl
    | ok message =>
      have hclock := rename_clock (s := s) message.fromKey message.toKey
      obtain ⟨fromKey, toKey⟩ := message
      dsimp only at hclock ⊢
      generalize s.rename fromKey toKey = outcome at hclock ⊢
      obtain ⟨s', e | o⟩ := outcome <;> exact hclock
  | _ => rfl

theorem call_clock (ops : DashOps) (call : GrpcCall) : (s.call X ops call).1.clock = s.clock := by
  cases call with
  | storeMedia messages ending =>
    rw [Service.call]
    cases StoreMedia.job ⟨.ok (), messages, ending⟩ with
    | error status => cases status <;> rfl
    | ok job => exact put_clock _
  | renameMedia message =>
    have hclock := rename_clock (s := s) message.fromKey message.toKey
    obtain ⟨fromKey, toKey⟩ := message
    rw [Service.call]
    split_ifs
    · rfl
    · dsimp only at hclock ⊢
      generalize s.rename fromKey toKey = outcome at hclock ⊢
      obtain ⟨s', e | o⟩ := outcome <;> exact hclock
  | _ => rfl

theorem serve_clock (ops : DashOps) (request : ApiRequest) : (s.serve X ops request).1.clock = s.clock := by
  cases request with
  | rest request =>
    show (s.rest X ops request).1.clock = _
    unfold Service.rest
    split_ifs
    · rfl
    · rcases decision X s.state.serverKeyHash request.toClient with hpass | ⟨-, body, hrefuse⟩
      · rw [hpass.2, endpoint_clock]
      · rw [hrefuse]
  | grpc client call =>
    show (s.grpc X ops client call).1.clock = _
    unfold Service.grpc
    cases checkAuth X s.state.serverKeyHash client with
    | error status => rfl
    | ok u => exact call_clock ops call

end Service

theorem Process.serve_state {p : Process} (ops : DashOps) (checks : Bool) (request : ApiRequest) :
    (p.serve X ops checks request).1.state = p.state := by
  cases request with
  | rest request =>
    rw [Process.serve]
    cases Rest.serve X ops checks p.state request p.cache p.store <;> rfl
  | grpc client call =>
    rw [Process.serve]
    cases Grpc.serve X ops p.state client call p.cache p.store <;> rfl

theorem KaidaDbConfig.engine_sized {config : KaidaDbConfig} (h : config.validate = .ok ()) :
    config.engine.Sized := by
  obtain ⟨hmin, hmax⟩ := chunkSize_bounds h
  exact ⟨Nat.lt_of_lt_of_le (by decide) hmin, Nat.lt_of_le_of_lt hmax (by decide)⟩

/-! ## The invariant -/

/-- The server was started so. -/
structure StartedWith (X : Crates) (D : Set Bytes) (store : Store) (objects : ExtTreeMap String StoredObject)
    (clock : Int) (server : RunningServer) (started : Started) : Prop where
  config : server.config = started.config
  serverKeyHash : server.serverKeyHash = hashKey X started.password
  grpcListens : server.grpcListens = started.grpcListens
  serving : Serving X D (server.process store) ⟨server.state, objects, clock⟩

/-- The deployment is the installation (module doc). -/
structure Deployed (X : Crates) (D : Set Bytes) (d : Deployment) (i : Installation) : Prop where
  keyFile : i.record.Kept X d.keyFile
  stored : ∃ (state : AppState) (cache : ChunkCache),
    Serving X D ⟨state, cache, d.store⟩ ⟨state, i.objects, i.clock⟩
  server : Option.Rel (StartedWith X D d.store i.objects i.clock) d.server i.server

variable {d : Deployment} {i : Installation}

theorem StartedWith.state_eq {store : Store} {objects : ExtTreeMap String StoredObject} {clock : Int}
    {server : RunningServer} {started : Started}
    (h : StartedWith X D store objects clock server started) :
    server.state = ⟨started.config.engine, started.config.streaming, hashKey X started.password⟩ := by
  rw [RunningServer.state, h.config, h.serverKeyHash]

namespace Deployed

/-- A server that is stopped leaves the data directory. -/
theorem stop (h : Deployed X D d i) : Deployed X D { d with server := none } { i with server := none } :=
  ⟨h.keyFile, h.stored, .none⟩

/-- **A new key.** A running server keeps its own. -/
theorem regenerate (h : Deployed X D d i) {args : Args} (hargs : args.regenerateKey = true)
    (outside : Outside) :
    Deployed X D (d.main X args outside).1 (i.main args outside).1 ∧
      (d.main X args outside).2.Same (i.main args outside).2 := by
  unfold Deployment.main Installation.main
  cases args.config.validate with
  | error e => exact ⟨h, rfl⟩
  | ok u =>
    obtain ⟨keyFile, hkept, hrun⟩ := regenerateKey_kept h.keyFile outside.io outside.draws
    dsimp only
    rw [if_pos hargs, if_pos hargs, hrun]
    generalize i.record.write outside.io (generateKey outside.draws) = written at hkept ⊢
    obtain ⟨record, e | u⟩ := written
    · exact ⟨⟨hkept, h.stored, h.server⟩, rfl⟩
    · exact ⟨⟨hkept, h.stored, h.server⟩, rfl⟩

/-- **A start.** -/
theorem start (hX : X.Lawful) (h : Deployed X D d i) {args : Args} (hargs : args.regenerateKey = false)
    (outside : Outside) (hd : d.server = none) (hi : i.server = none) :
    Deployed X D (d.main X args outside).1 (i.main args outside).1 ∧
      (d.main X args outside).2.Same (i.main args outside).2 := by
  unfold Deployment.main Installation.main
  cases hvalid : args.config.validate with
  | error e => exact ⟨h, rfl⟩
  | ok u =>
    obtain ⟨keyFile, hkept, hrun⟩ := loadOrCreateKey_kept h.keyFile outside.io outside.draws
    dsimp only
    rw [if_neg (by simp [hargs]), if_neg (by simp [hargs]), hrun]
    generalize i.record.load outside.io (generateKey outside.draws) = loaded at hkept ⊢
    obtain ⟨record, e | ⟨password, shown⟩⟩ := loaded
    · exact ⟨⟨hkept, h.stored, h.server⟩, rfl⟩
    obtain ⟨state, cache, hserving⟩ := h.stored
    obtain ⟨store, hopen, hstarted⟩ := hserving.restart hX
      ⟨args.config.engine, args.config.streaming, hashKey X password⟩ args.config.storage.durability
      args.config.cache.maxSize (KaidaDbConfig.engine_sized hvalid)
    have hopen : Index.openWith X d.store args.config.storage.durability = .ok store := hopen
    dsimp only
    rw [hopen]
    cases outside.listen with
    | error text => exact ⟨⟨hkept, ⟨_, _, hstarted⟩, by rw [hd, hi]; exact .none⟩, rfl⟩
    | ok u => exact ⟨⟨hkept, ⟨_, _, hstarted⟩, .some ⟨rfl, rfl, rfl, hstarted⟩⟩, rfl⟩

/-- **A call of `main`**, with the server that runs stopped before a start. -/
theorem main (hX : X.Lawful) (h : Deployed X D d i) (args : Args) (outside : Outside) :
    let d' := if args.regenerateKey then d else { d with server := none }
    let i' := if args.regenerateKey then i else { i with server := none }
    Deployed X D (d'.main X args outside).1 (i'.main args outside).1 ∧
      (d'.main X args outside).2.Same (i'.main args outside).2 := by
  dsimp only
  split_ifs with hargs
  · exact h.regenerate hargs outside
  · exact h.stop.start hX (Bool.not_eq_true _ ▸ hargs) outside rfl rfl

/-- **A request** to a running server, over either API. -/
theorem request (h : Deployed X D d i) (hinj : Set.InjOn X.sha256 D) (ops : DashOps) (checks : Bool)
    (request : ApiRequest) (hsized : request.Sized) (hD : ∀ q, q <:+: request.body → q ∈ D) :
    Deployed X D (d.step X ops checks (.request request)).1 (i.step X ops (.request request)).1 ∧
      List.Forall₂ DeploymentReply.Same (d.step X ops checks (.request request)).2
        (i.step X ops (.request request)).2 := by
  obtain ⟨keyFile, store, server⟩ := d
  obtain ⟨record, objects, clock, started⟩ := i
  unfold Deployment.step Installation.step
  obtain ⟨hkept, hstored, hserver⟩ := h
  cases hserver with
  | none => exact ⟨⟨hkept, hstored, .none⟩, .cons rfl .nil⟩
  | @some server started hserver =>
    dsimp only
    rw [hserver.grpcListens]
    split_ifs
    swap
    · exact ⟨⟨hkept, hstored, .some hserver⟩, .cons rfl .nil⟩
    obtain ⟨hserving, hsame⟩ := hserver.serving.serve hinj ops checks request hsized hD
    have hservice : Installation.service X ⟨record, objects, clock, some started⟩ started
        = ⟨server.state, objects, clock⟩ := by rw [hserver.state_eq]; rfl
    rw [hservice]
    have hclock := Service.serve_clock (X := X) (s := ⟨server.state, objects, clock⟩) ops request
    have hstate := Process.serve_state (X := X) (p := server.process store) ops checks request
    generalize (server.process store).serve X ops checks request = served at hserving hsame hstate
    generalize Service.serve X ⟨server.state, objects, clock⟩ ops request = served' at hserving hsame hclock
    obtain ⟨⟨state, cache, store⟩, reply⟩ := served
    obtain ⟨⟨state', objects', clock'⟩, reply'⟩ := served'
    obtain rfl : state' = state := hserving.state
    obtain rfl : state' = server.state := hstate
    obtain rfl : clock' = clock := hclock
    exact ⟨⟨hkept, ⟨_, _, hserving⟩,
      .some ⟨hserver.config, hserver.serverKeyHash, rfl, hserving⟩⟩, .cons hsame .nil⟩

/-- **A pass of `gc`** in the background. -/
theorem gcTick (h : Deployed X D d i) (ops : DashOps) (checks : Bool) :
    Deployed X D (d.step X ops checks .gcTick).1 i ∧ (d.step X ops checks .gcTick).2 = [] := by
  obtain ⟨keyFile, store, server⟩ := d
  obtain ⟨record, objects, clock, started⟩ := i
  unfold Deployment.step
  obtain ⟨hkept, hstored, hserver⟩ := h
  cases hserver with
  | none => exact ⟨⟨hkept, hstored, .none⟩, rfl⟩
  | @some server started hserver =>
    dsimp only
    split_ifs
    · obtain ⟨report, st, hrun, hst⟩ :=
        hserver.serving.gc (server.config.storage.gcGraceSecs * 10 ^ 9)
      have hrun : StorageEngine.gc (server.config.storage.gcGraceSecs * 10 ^ 9) store = .ok report st := hrun
      rw [hrun]
      exact ⟨⟨hkept, ⟨_, _, hst⟩,
        .some ⟨hserver.config, hserver.serverKeyHash, hserver.grpcListens, hst⟩⟩, rfl⟩
    · exact ⟨⟨hkept, hstored, .some hserver⟩, rfl⟩

theorem tick (h : Deployed X D d i) (now : Int) :
    Deployed X D { d with store := { d.store with clock := now } } { i with clock := now } := by
  obtain ⟨keyFile, store, server⟩ := d
  obtain ⟨record, objects, clock, started⟩ := i
  obtain ⟨hkept, ⟨state, cache, hserving⟩, hserver⟩ := h
  refine ⟨hkept, ⟨state, cache, hserving.tick now⟩, ?_⟩
  cases hserver with
  | none => exact .none
  | some hserver =>
    exact .some ⟨hserver.config, hserver.serverKeyHash, hserver.grpcListens, hserver.serving.tick now⟩

/-- **Every event** is answered as the installation answers it. -/
theorem step (hX : X.Lawful) (h : Deployed X D d i) (hinj : Set.InjOn X.sha256 D) (ops : DashOps)
    (checks : Bool) (event : DeploymentEvent) (hsized : event.Sized)
    (hD : ∀ q, q <:+: event.body → q ∈ D) :
    Deployed X D (d.step X ops checks event).1 (i.step X ops event).1 ∧
      List.Forall₂ DeploymentReply.Same (d.step X ops checks event).2 (i.step X ops event).2 := by
  cases event with
  | main args outside =>
    obtain ⟨hdeployed, hsame⟩ := h.main hX args outside
    exact ⟨hdeployed, .cons hsame .nil⟩
  | stop => exact ⟨h.stop, .nil⟩
  | request request => exact h.request hinj ops checks request hsized hD
  | gcTick =>
    obtain ⟨hdeployed, hreplies⟩ := h.gcTick ops checks
    exact ⟨hdeployed, hreplies ▸ .nil⟩
  | tick now => exact ⟨h.tick now, .nil⟩

theorem run (hX : X.Lawful) (hinj : Set.InjOn X.sha256 D) (ops : DashOps) (checks : Bool) :
    ∀ (events : List DeploymentEvent) {d : Deployment} {i : Installation}, Deployed X D d i →
      (∀ event ∈ events, event.Sized) → (∀ event ∈ events, ∀ q, q <:+: event.body → q ∈ D) →
      Deployed X D (d.run X ops checks events).1 (i.run X ops events).1 ∧
        List.Forall₂ DeploymentReply.Same (d.run X ops checks events).2 (i.run X ops events).2
  | [], _, _, h, _, _ => ⟨h, .nil⟩
  | event :: events, d, i, h, hsized, hD => by
    obtain ⟨hstep, hreplies⟩ := h.step hX hinj ops checks event (hsized event List.mem_cons_self)
      (hD event List.mem_cons_self)
    obtain ⟨hrun, hlater⟩ := run hX hinj ops checks events hstep
      (fun e he => hsized e (List.mem_cons_of_mem _ he)) fun e he => hD e (List.mem_cons_of_mem _ he)
    exact ⟨hrun, List.rel_append hreplies hlater⟩

theorem empty (dataDir : String) : Deployed X D (.empty dataDir) .empty :=
  ⟨rfl, ⟨_, _, .start ⟨⟨1, 0, false⟩, ⟨⟨""⟩, 0, "", false⟩, ""⟩ ⟨by decide, by decide⟩ dataDir 0⟩, .none⟩

end Deployed

/-- Nothing fails, and every number drawn is 0. -/
def smooth : Outside := ⟨.replicate _ 0, ⟨.ok (), .ok (), .done⟩, .ok (), .ok (), .ok (), .ok ()⟩

end KaidaDB
