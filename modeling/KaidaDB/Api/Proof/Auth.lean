import KaidaDB.Api.Proof.Dash
import KaidaDB.Api.Rest
import KaidaDB.Crates.Reference

/-!
# No endpoint without authentication

`decision`: for one client the check of the gRPC service and the middleware of the REST router decide the
same, and they refuse the callers that are `Unauthorized`. Every handler of the gRPC service asks first
(`serve_grpc_refused`), and over REST there is no handler before the middleware (`serve_rest_refused`).
-/

namespace KaidaDB

variable {X : Crates} {serverKeyHash : String} {client : Client}

/-! ## The decision -/

theorem passes_loopback {addr : SocketAddr} (haddr : client.remoteAddr = some addr)
    (hlocal : addr.ip.isLoopback = true) : client.Passes X serverKeyHash := by
  simp [Client.Passes, checkAuth, authMiddleware, matchesLoopback, haddr, hlocal]

/-- What happens to a client that is not known to be on this host. -/
theorem decision_remote (hremote : ∀ addr, client.remoteAddr = some addr → addr.ip.isLoopback = false) :
    (client.Passes X serverKeyHash ∧ ∃ value provided, client.header "x-server-pass" = some value ∧
      headerStr value = some provided ∧ hashKey X provided = serverKeyHash) ∨
    (client.Refused X serverKeyHash ∧ client.Unauthorized X serverKeyHash) := by
  have hgrpc : (client.remoteAddr.map fun addr => addr.ip.isLoopback).getD false = false := by
    cases haddr : client.remoteAddr with
    | none => rfl
    | some addr => exact hremote addr haddr
  have hrest : matchesLoopback client.remoteAddr = false := by
    cases haddr : client.remoteAddr with
    | none => rfl
    | some addr => exact hremote addr haddr
  unfold Client.Passes Client.Refused checkAuth authMiddleware
  simp only [hgrpc, hrest, Bool.false_eq_true, if_false]
  cases hheader : client.header "x-server-pass" with
  | none => exact .inr ⟨⟨⟨_, rfl⟩, _, fun _ _ => rfl⟩, hremote, fun _ _ h => by simp [hheader] at h⟩
  | some value =>
    dsimp only
    cases hstr : headerStr value with
    | none =>
      refine .inr ⟨⟨⟨_, rfl⟩, _, fun _ _ => rfl⟩, hremote, fun value' provided h hp => ?_⟩
      rw [hheader, Option.some.injEq] at h
      rw [← h, hstr] at hp
      cases hp
    | some provided =>
      dsimp only
      by_cases hhash : hashKey X provided = serverKeyHash
      · have hverify : verifyKey X provided serverKeyHash = true := decide_eq_true hhash
        simp only [hverify, if_true]
        exact .inl ⟨⟨trivial, fun _ _ => trivial⟩, value, provided, rfl, hstr, hhash⟩
      · have hverify : verifyKey X provided serverKeyHash = false := decide_eq_false hhash
        simp only [hverify, Bool.false_eq_true, if_false]
        refine .inr ⟨⟨⟨_, rfl⟩, _, fun _ _ => rfl⟩, hremote, fun value' provided' h hp => ?_⟩
        rw [hheader, Option.some.injEq] at h
        rw [← h, hstr, Option.some.injEq] at hp
        exact hp ▸ hhash

/-- **The two gates agree.** -/
theorem decision (X : Crates) (serverKeyHash : String) (client : Client) :
    client.Passes X serverKeyHash ∨ client.Refused X serverKeyHash := by
  by_cases hlocal : ∃ addr, client.remoteAddr = some addr ∧ addr.ip.isLoopback = true
  · obtain ⟨addr, haddr, hlocal⟩ := hlocal
    exact .inl (passes_loopback haddr hlocal)
  · have hremote : ∀ addr, client.remoteAddr = some addr → addr.ip.isLoopback = false := by
      intro addr haddr
      exact Bool.eq_false_iff.2 fun h => hlocal ⟨addr, haddr, h⟩
    exact (decision_remote hremote).imp And.left And.left

theorem Client.Unauthorized.refused (h : client.Unauthorized X serverKeyHash) :
    client.Refused X serverKeyHash := by
  rcases decision_remote h.remote with ⟨-, value, provided, hvalue, hprovided, hhash⟩ | ⟨hrefused, -⟩
  · exact absurd hhash (h.pass value provided hvalue hprovided)
  · exact hrefused

/-! ## The services -/

variable {ops : DashOps} {checks : Bool} {state : AppState}

/-- A refused client gets the status from every method, which does nothing else. -/
theorem serve_grpc_refused {status : Status}
    (h : checkAuth X state.serverKeyHash client = .error status) (call : GrpcCall)
    (cache : ChunkCache) (s : Store) :
    Grpc.serve X ops state client call cache s = .ok (.error status, cache) s := by
  unfold Grpc.serve
  rw [h]
  cases call <;> rfl

theorem serve_rest_refused {request : RestRequest} {body : String}
    (h : ∀ {α : Type} (refuse : String → α) (next : α),
      authMiddleware X state.serverKeyHash request.toClient refuse next = refuse body)
    (hmethod : request.method ≠ .options) (cache : ChunkCache) (s : Store) :
    Rest.serve X ops checks state request cache s = .ok (.text 401 body, cache) s := by
  rw [Rest.serve, if_neg hmethod, h]
  rfl

/-- **No endpoint is reachable without authentication**, and both APIs decide alike. -/
theorem authentication_required (X : Crates) (ops : DashOps) (checks : Bool) (state : AppState)
    (client : Client) :
    (client.Unauthorized X state.serverKeyHash → ∀ (cache : ChunkCache) (s : Store),
      (∀ call, ∃ message, Grpc.serve X ops state client call cache s
        = .ok (.error (.mk .unauthenticated message), cache) s) ∧
      ∀ request : RestRequest, request.toClient = client → request.method ≠ .options →
        ∃ body, Rest.serve X ops checks state request cache s = .ok (.text 401 body, cache) s) ∧
    (client.Passes X state.serverKeyHash ∨ client.Refused X state.serverKeyHash) := by
  refine ⟨fun h cache s => ?_, decision X state.serverKeyHash client⟩
  obtain ⟨⟨message, hgrpc⟩, body, hrest⟩ := h.refused
  refine ⟨fun call => ⟨message, serve_grpc_refused hgrpc call cache s⟩, fun request hclient hmethod => ?_⟩
  subst hclient
  exact ⟨body, serve_rest_refused hrest hmethod cache s⟩

/-- A server with a password. -/
def guardedState : AppState :=
  ⟨⟨4, 0, false⟩, ⟨⟨"streams/"⟩, 6, "", true⟩, hashKey .reference "secret"⟩

/-- A client without address or password deletes nothing. -/
theorem authentication_required_stranger :
    ∃ message, Grpc.serve .reference exactSeconds guardedState ⟨none, []⟩ (.deleteMedia "movie")
        (.new 1024) (.emptyDir "/data" (Stream'.const .ok))
      = .ok (.error (.mk .unauthenticated message), .new 1024)
          (.emptyDir "/data" (Stream'.const .ok)) := by
  have hstranger : Client.Unauthorized .reference guardedState.serverKeyHash ⟨none, []⟩ :=
    ⟨nofun, nofun⟩
  exact ((authentication_required .reference exactSeconds false guardedState ⟨none, []⟩).1 hstranger
    (.new 1024) (.emptyDir "/data" (Stream'.const .ok))).1 (.deleteMedia "movie")

end KaidaDB
