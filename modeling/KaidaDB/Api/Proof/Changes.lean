import KaidaDB.Api.Proof.Process

/-!
# Who changes an object

On objects a change is easy to trace: the handlers that change anything are called with the key, and are
behind the authentication (`Service.step_objects`). By refinement the same holds of the index of a server.
-/

namespace KaidaDB

open Std Effects

variable {X : Crates} {s : Service} {key : String}

/-! ## On objects -/

theorem Service.put_objects {job : Upload.Job} (h : job.key ≠ key) :
    (s.put job).1.objects[key]? = s.objects[key]? := by
  unfold Service.put
  cases Spec.mayBegin s.state.engine job.key with
  | error e => rfl
  | ok u =>
    cases Spec.mayWrite s.state.engine.maxObjectSize [] job.frames.flatten with
    | error e => rfl
    | ok u =>
      dsimp only
      rw [FinMap.get_insert, if_neg h]

theorem Service.delete_objects {k : String} (h : k ≠ key) :
    (s.delete k).1.objects[key]? = s.objects[key]? := by
  rw [Service.delete, FinMap.get_erase, if_neg h]

theorem Service.rename_objects {fromKey toKey : String} (hfrom : fromKey ≠ key) (hto : toKey ≠ key) :
    (s.rename fromKey toKey).1.objects[key]? = s.objects[key]? := by
  unfold Service.rename
  cases Service.keyError? toKey with
  | some e => rfl
  | none =>
    by_cases hne : fromKey = toKey
    · rw [if_pos hne]
    · rw [if_neg hne]
      cases s.objects[fromKey]? with
      | none => rfl
      | some o =>
        dsimp only
        by_cases hsome : (s.objects[toKey]?).isSome = true
        · rw [if_pos hsome]
        · rw [if_neg hsome]
          dsimp only
          rw [FinMap.get_erase, if_neg hfrom, FinMap.get_insert, if_neg hto]

theorem Service.deleteStream_objects {streamId : String}
    (h : startsWith key (deletedPrefix s.state.streaming.toStreamingConfig streamId) ≠ true) :
    (s.deleteStream streamId).1.objects[key]? = s.objects[key]? := by
  rw [Service.deleteStream, ExtTreeMap.getElem?_filter', Bool.eq_false_iff.2 h]
  cases s.objects[key]? <;> rfl

/-- A handler over REST changes what it is asked to change. -/
theorem Service.endpoint_objects (ops : DashOps) {request : RestRequest}
    (h : ¬ (ApiRequest.rest request).Names s.state key) :
    (s.endpoint X ops request (route request.method request.path)).1.objects[key]? = s.objects[key]? := by
  rw [ApiRequest.Names] at h
  cases hroute : route request.method request.path with
  | putMedia k =>
    rw [hroute] at h
    exact Service.put_objects (by rwa [PutMedia.job, normalizeKey_slash])
  | deleteMedia k =>
    rw [hroute] at h
    exact Service.delete_objects h
  | renameMedia =>
    rw [hroute] at h
    unfold Service.endpoint
    cases hmessage : request.renameRequest with
    | error e => rfl
    | ok message =>
      have hkeys : ¬ (message.fromKey = key ∨ message.toKey = key) := fun hkey =>
        h ⟨message, hmessage, hkey⟩
      obtain ⟨hfrom, hto⟩ := not_or.1 hkeys
      have hsame := Service.rename_objects (s := s) hfrom hto
      obtain ⟨fromKey, toKey⟩ := message
      dsimp only at hsame ⊢
      generalize s.rename fromKey toKey = outcome at hsame ⊢
      obtain ⟨s', e | o⟩ := outcome
      · exact hsame
      · exact hsame
  | deleteStream streamId =>
    rw [hroute] at h
    exact Service.deleteStream_objects h
  | _ => rfl

/-- A method changes what it is asked to change. -/
theorem Service.call_objects (ops : DashOps) {client : Client} {call : GrpcCall}
    (h : ¬ (ApiRequest.grpc client call).Names s.state key) :
    (s.call X ops call).1.objects[key]? = s.objects[key]? := by
  cases call with
  | storeMedia messages ending =>
    rw [Service.call]
    cases hjob : StoreMedia.job ⟨.ok (), messages, ending⟩ with
    | error status => cases status <;> rfl
    | ok job =>
      refine Service.put_objects fun hkey => h ?_
      unfold StoreMedia.job at hjob
      rcases messages with _ | ⟨_ | _ | _, rest⟩
      · cases ending <;> cases hjob
      · cases hjob
      · dsimp only at hjob
        split_ifs at hjob
        cases hjob
        exact hkey
      · cases hjob
  | deleteMedia k => exact Service.delete_objects h
  | renameMedia message =>
    obtain ⟨hfrom, hto⟩ := not_or.1 h
    obtain ⟨fromKey, toKey⟩ := message
    have hsame := Service.rename_objects (s := s) hfrom hto
    rw [Service.call]
    split_ifs
    · rfl
    · dsimp only at hsame ⊢
      generalize s.rename fromKey toKey = outcome at hsame ⊢
      obtain ⟨s', e | o⟩ := outcome
      · exact hsame
      · exact hsame
  | deleteStream streamId => exact Service.deleteStream_objects h
  | _ => rfl

/-- **One event** changes an object only if it is a request that is let through and names the key. -/
theorem Service.step_objects (ops : DashOps) (event : ProcessEvent)
    (h : (s.step X ops event).1.objects[key]? ≠ s.objects[key]?) :
    ∃ request, event = .request request ∧ request.client.Passes X s.state.serverKeyHash ∧
      request.Names s.state key := by
  cases event with
  | gc grace => exact absurd rfl h
  | tick now => exact absurd rfl h
  | restart state durability maxCache => exact absurd rfl h
  | request request =>
    refine ⟨request, rfl, ?_⟩
    by_contra hnot
    refine h ?_
    cases request with
    | rest request =>
      show (s.rest X ops request).1.objects[key]? = _
      unfold Service.rest
      split_ifs
      · rfl
      · rcases decision X s.state.serverKeyHash request.toClient with hpass | ⟨-, body, hrefuse⟩
        · rw [hpass.2]
          exact Service.endpoint_objects ops fun hnames => hnot ⟨hpass, hnames⟩
        · rw [hrefuse]
    | grpc client call =>
      show (s.grpc X ops client call).1.objects[key]? = _
      unfold Service.grpc
      rcases decision X s.state.serverKeyHash client with hpass | ⟨⟨message, hrefuse⟩, -⟩
      · rw [hpass.1]
        exact Service.call_objects ops fun hnames => hnot ⟨hpass, hnames⟩
      · rw [hrefuse]

/-! ## In the index of a server -/

/-- **Objects change by authorized requests that name them** and by nothing else, in every run: what the
index has under a key is left as it is by passes of `gc`, restarts, requests that are refused and requests
for other keys. -/
theorem changes_are_authorized (hX : X.Lawful) (ops : DashOps) (checks : Bool) (state : AppState)
    (hsize : state.engine.Sized) (dataDir : String) (maxCache : Nat) (events : List ProcessEvent)
    (event : ProcessEvent) (hsized : ∀ e ∈ event :: events, e.Sized)
    (hdiffer : PiecesDiffer X (event :: events)) (key : String) :
    let p := ((Process.start state dataDir maxCache).run X ops checks events).1
    let p' := (p.step X ops checks event).1
    p'.store.index.manifests[key]? ≠ p.store.index.manifests[key]? →
      ∃ request, event = .request request ∧ request.client.Passes X p.state.serverKeyHash ∧
        request.Names p.state key := by
  intro p p' hchange
  obtain ⟨h, -⟩ := Serving.run hX hdiffer ops checks events (.start state hsize dataDir maxCache)
    (fun e he => hsized e (List.mem_cons_of_mem _ he))
    (fun e he _ hq => ⟨_, List.mem_map_of_mem (List.mem_cons_of_mem _ he), hq⟩)
  obtain ⟨h', -⟩ := h.step hX hdiffer ops checks event (hsized event List.mem_cons_self)
    (fun _ hq => ⟨_, List.mem_cons_self, hq⟩)
  rw [← show _ = p.state from h.state]
  refine Service.step_objects ops event fun hsame => hchange ?_
  calc p'.store.index.manifests[key]? = _ := h'.manifests key
    _ = _ := by rw [hsame]
    _ = p.store.index.manifests[key]? := (h.manifests key).symm

/-- An object of one byte is deleted from the host of the server. -/
theorem changes_are_authorized_delete :
    let events : List ProcessEvent := [.request (.grpc localClient
      (.storeMedia [some (.header "a" "" []), some (.chunkData [1])] .clean))]
    let event : ProcessEvent := .request (.grpc localClient (.deleteMedia "a"))
    let p := ((Process.start guardedState "data" 100).run .reference exactSeconds true events).1
    ∃ request, event = .request request ∧ request.client.Passes .reference p.state.serverKeyHash ∧
      request.Names p.state "a" :=
  changes_are_authorized Crates.reference_lawful exactSeconds true guardedState ⟨by decide, by decide⟩ "data" 100
    [.request (.grpc localClient (.storeMedia [some (.header "a" "" []), some (.chunkData [1])] .clean))]
    (.request (.grpc localClient (.deleteMedia "a")))
    (by
      simp only [List.forall_mem_cons, List.not_mem_nil, false_implies, implies_true, and_true]
      exact ⟨(by decide : 0 < 2 ^ 64), (by decide : 1 < 2 ^ 64)⟩)
    (reference_free (by decide +kernel))
    "a" (by decide +kernel)

end KaidaDB
