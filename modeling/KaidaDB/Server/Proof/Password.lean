import KaidaDB.Server.Proof.Main

/-!
# The password decides

Every password that is recorded or that a server was started with has been made by a call of `main`
(`Installation.Made`), so it is text for a header, and with no collisions its hash is that of no other. A
running server therefore lets a client through exactly if the client is on its host or gives the password
that was recorded when the server was started.
-/

namespace KaidaDB

open Std

variable {X : Crates} {D : Set Bytes} {made : Set String}

/-! ## Passwords are made -/

theorem KeyRecord.write_key {old : KeyRecord} {io : KeyIo} {fresh password : String}
    (h : (old.write io fresh).1 = .key password) : password = fresh ∨ old = .key password := by
  revert h
  unfold write
  cases io.createDirAll with
  | error text => exact .inr
  | ok u =>
    cases io.write with
    | done => exact fun h => .inl (KeyRecord.key.inj h).symm
    | notOpened text => exact .inr
    | stopped text written =>
      dsimp only
      split_ifs
      · exact nofun
      · exact fun h => .inl (KeyRecord.key.inj h).symm

theorem KeyRecord.load_key {record : KeyRecord} {io : KeyIo} {fresh password : String}
    (h : (record.load io fresh).1 = .key password) : password = fresh ∨ record = .key password := by
  cases record with
  | missing => exact write_key h
  | damaged => exact .inr h
  | key plaintext => exact .inr h

theorem KeyRecord.load_ok {record : KeyRecord} {io : KeyIo} {fresh password : String}
    {shown : Option String} (h : (record.load io fresh).2 = .ok (password, shown)) :
    password = fresh ∨ record = .key password := by
  cases record with
  | missing =>
    revert h
    unfold load
    cases (missing.write io fresh).2 with
    | error e => exact nofun
    | ok u =>
      intro h
      cases h
      exact .inl rfl
  | damaged =>
    revert h
    unfold load
    cases io.readToString <;> exact nofun
  | key plaintext =>
    revert h
    unfold load
    cases io.readToString with
    | error text => exact nofun
    | ok u =>
      intro h
      cases h
      exact .inr rfl

/-- All passwords in use are of the set. -/
structure Installation.Made (made : Set String) (i : Installation) : Prop where
  record : ∀ password, i.record = .key password → password ∈ made
  server : ∀ started, i.server = some started → started.password ∈ made

namespace Installation.Made

variable {i : Installation}

theorem main (h : i.Made made) (args : Args) {outside : Outside}
    (hfresh : generateKey outside.draws ∈ made) : (i.main args outside).1.Made made := by
  unfold Installation.main
  cases args.config.validate with
  | error e => exact h
  | ok u =>
    dsimp only
    split_ifs
    · have hrecord : ∀ password, (i.record.write outside.io (generateKey outside.draws)).1 = .key password →
          password ∈ made := fun password hkey =>
        (KeyRecord.write_key hkey).elim (fun heq => heq ▸ hfresh) (h.record password)
      generalize i.record.write outside.io (generateKey outside.draws) = written at hrecord ⊢
      obtain ⟨record, e | u⟩ := written
      · exact ⟨hrecord, h.server⟩
      · exact ⟨hrecord, h.server⟩
    · have hrecord : ∀ password, (i.record.load outside.io (generateKey outside.draws)).1 = .key password →
          password ∈ made := fun password hkey =>
        (KeyRecord.load_key hkey).elim (fun heq => heq ▸ hfresh) (h.record password)
      have hloaded : ∀ password shown, (i.record.load outside.io (generateKey outside.draws)).2
          = .ok (password, shown) → password ∈ made := fun password shown hok =>
        (KeyRecord.load_ok hok).elim (fun heq => heq ▸ hfresh) (h.record password)
      generalize i.record.load outside.io (generateKey outside.draws) = loaded at hrecord hloaded ⊢
      obtain ⟨record, e | ⟨password, shown⟩⟩ := loaded
      · exact ⟨hrecord, h.server⟩
      · cases outside.listen with
        | error text => exact ⟨hrecord, h.server⟩
        | ok u =>
          refine ⟨hrecord, fun started hserver => ?_⟩
          cases hserver
          exact hloaded password shown rfl

theorem step (h : i.Made made) (ops : DashOps) {event : DeploymentEvent}
    (hfresh : ∀ args outside, event = .main args outside → generateKey outside.draws ∈ made) :
    (i.step X ops event).1.Made made := by
  cases event with
  | main args outside =>
    have hstopped : (if args.regenerateKey then i else { i with server := none }).Made made := by
      split_ifs
      · exact h
      · exact ⟨h.record, nofun⟩
    exact hstopped.main args (hfresh args outside rfl)
  | stop => exact ⟨h.record, nofun⟩
  | request request =>
    unfold Installation.step
    cases hserver : i.server with
    | none => exact h
    | some started =>
      dsimp only
      split_ifs
      · exact ⟨h.record, fun started heq => h.server started (hserver ▸ heq)⟩
      · exact h
  | gcTick => exact h
  | tick now => exact ⟨h.record, h.server⟩

theorem run (ops : DashOps) : ∀ (events : List DeploymentEvent) {i : Installation}, i.Made made →
    (∀ event ∈ events, ∀ args outside, event = .main args outside → generateKey outside.draws ∈ made) →
    (i.run X ops events).1.Made made
  | [], _, h, _ => h
  | event :: events, _, h, hfresh =>
    run ops events (h.step ops (hfresh event List.mem_cons_self))
      fun e he => hfresh e (List.mem_cons_of_mem _ he)

theorem empty : Installation.empty.Made made := ⟨nofun, nofun⟩

end Installation.Made

/-! ## Changes -/

namespace Installation

variable {i : Installation} {key : String}

theorem main_objects (args : Args) (outside : Outside) :
    (i.main args outside).1.objects = i.objects := by
  unfold main
  cases args.config.validate with
  | error e => rfl
  | ok u =>
    dsimp only
    split_ifs
    · rcases i.record.write outside.io (generateKey outside.draws) with ⟨record, e | u⟩ <;> rfl
    · rcases i.record.load outside.io (generateKey outside.draws) with ⟨record, e | ⟨password, shown⟩⟩
      · rfl
      · cases outside.listen <;> rfl

/-- **One event** changes an object only if it is a request to a server that lets it through and the
request names the key. -/
theorem step_objects (ops : DashOps) (event : DeploymentEvent)
    (h : (i.step X ops event).1.objects[key]? ≠ i.objects[key]?) :
    ∃ request started, event = .request request ∧ i.server = some started ∧
      request.reaches started.grpcListens = true ∧ request.client.Passes X (hashKey X started.password) ∧
      request.Names (i.service X started).state key := by
  cases event with
  | main args outside =>
    refine absurd (congrArg (fun t => t[key]?) ((main_objects args outside).trans ?_)) h
    split_ifs <;> rfl
  | stop => exact absurd rfl h
  | request request =>
    cases hserver : i.server with
    | none =>
      rw [Installation.step, hserver] at h
      exact absurd rfl h
    | some started =>
      rw [Installation.step, hserver] at h
      dsimp only at h
      split_ifs at h with hreaches
      · obtain ⟨request', heq, hpasses, hnames⟩ := Service.step_objects ops (.request request) h
        cases heq
        exact ⟨request, started, rfl, rfl, hreaches, hpasses, hnames⟩
      · exact absurd rfl h
  | gcTick => exact absurd rfl h
  | tick now => exact absurd rfl h

end Installation

/-- What the index of a deployment has. -/
theorem Deployed.manifests {d : Deployment} {i : Installation} (h : Deployed X D d i) (key : String) :
    d.store.index.manifests[key]? = i.objects[key]?.map fun o : StoredObject => o.manifest X key := by
  obtain ⟨state, cache, hserving⟩ := h.stored
  exact hserving.manifests key

/-! ## In a deployment -/

/-- **The password decides.** In every run from an empty data directory, a running server lets a client
through exactly if the client is on its host or gives the password that was recorded when the server was
started, and what the index has under a key changes only by a request that is let through so and that
names the key: not by starts, new keys, failures of them, stops, or passes of `gc`. -/
theorem password_decides (hX : X.Lawful) (ops : DashOps) (checks : Bool) (dataDir : String)
    (events : List DeploymentEvent) (event : DeploymentEvent) (hsized : ∀ e ∈ event :: events, e.Sized)
    (huploads : UploadsDiffer X (event :: events)) (hpasswords : PasswordsDiffer X (event :: events))
    (key : String) :
    let d := ((Deployment.empty dataDir).run X ops checks events).1
    let i := (Installation.empty.run X ops events).1
    (∀ request server started, event = .request request → d.server = some server →
      i.server = some started →
      (request.client.Passes X server.serverKeyHash ↔
        request.client.Local ∨ request.client.Gives started.password)) ∧
    ((d.step X ops checks event).1.store.index.manifests[key]? ≠ d.store.index.manifests[key]? →
      ∃ request started, event = .request request ∧ i.server = some started ∧
        request.reaches started.grpcListens = true ∧
        (request.client.Local ∨ request.client.Gives started.password) ∧
        request.Names (i.service X started).state key) := by
  intro d i
  obtain ⟨h, -⟩ := Deployed.run hX huploads ops checks events (.empty dataDir)
    (fun e he => hsized e (List.mem_cons_of_mem _ he))
    (fun _ he _ hq => ⟨_, List.mem_map_of_mem (List.mem_cons_of_mem _ he), hq⟩)
  have hmade : i.Made {password | IsVisible password ∧
      ∃ e ∈ event :: events, e.Password (Utf8.encode password.toList)} :=
    .run ops events .empty fun e he args outside heq =>
      ⟨isVisible_generateKey _, e, List.mem_cons_of_mem _ he, by rw [heq]; rfl⟩
  have hpasses : ∀ request started, event = .request request → i.server = some started →
      (request.client.Passes X (hashKey X started.password) ↔
        request.client.Local ∨ request.client.Gives started.password) := by
    intro request started heq hserver
    obtain ⟨hvisible, e, he, hpassword⟩ := hmade.server started hserver
    refine passes_iff hvisible fun value hvalue hsha => ?_
    exact hpasswords ⟨event, List.mem_cons_self, by rw [heq]; exact hvalue⟩ ⟨e, he, hpassword⟩ hsha
  refine ⟨fun request server started heq hd hi => ?_, fun hchange => ?_⟩
  · have hserver := h.server
    rw [show (Deployment.run X ops checks (.empty dataDir) events).1.server = _ from hd,
      show (Installation.run X ops .empty events).1.server = _ from hi] at hserver
    cases hserver with
    | some hstarted =>
      rw [hstarted.serverKeyHash]
      exact hpasses request started heq hi
  · obtain ⟨h', -⟩ := h.step hX huploads ops checks event (hsized event List.mem_cons_self)
      (fun _ hq => ⟨_, List.mem_cons_self, hq⟩)
    obtain ⟨request, started, heq, hi, hreaches, hlet, hnames⟩ := Installation.step_objects ops event
      fun hsame => hchange (by rw [h'.manifests key, hsame, h.manifests key])
    exact ⟨request, started, heq, hi, hreaches, (hpasses request started heq hi).1 hlet, hnames⟩

/-- A client of another host stores an object with the password that the first start has shown. -/
def storedFromAfar : ApiRequest :=
  .grpc ⟨some ⟨.v4 10 0 0 1, 9⟩, [("x-server-pass", Utf8.encode (generateKey smooth.draws).toList)]⟩
    (.storeMedia [some (.header "a" "" []), some (.chunkData [1])] .clean)

theorem storedFromAfar_password :
    PasswordsDiffer .reference [.request storedFromAfar, .main ⟨{}, false⟩ smooth] := by
  have hone : ∀ password, (∃ event ∈ [.request storedFromAfar, .main ⟨{}, false⟩ smooth],
      DeploymentEvent.Password event password) →
      password = Utf8.encode (generateKey smooth.draws).toList := by
    intro password hpassword
    obtain ⟨event, he, hpassword⟩ := hpassword
    simp only [List.mem_cons, List.not_mem_nil, or_false] at he
    rcases he with rfl | rfl
    · exact (Option.some.inj hpassword).symm
    · exact hpassword
  intro a ha b hb _
  exact (hone a ha).trans (hone b hb).symm

theorem password_decides_stored :
    let i := (Installation.empty.run .reference exactSeconds [.main ⟨{}, false⟩ smooth]).1
    ∃ request started, DeploymentEvent.request storedFromAfar = .request request ∧
      i.server = some started ∧ request.reaches started.grpcListens = true ∧
      (request.client.Local ∨ request.client.Gives started.password) ∧
      request.Names (i.service .reference started).state "a" :=
  (password_decides Crates.reference_lawful exactSeconds true "data" [.main ⟨{}, false⟩ smooth]
    (.request storedFromAfar)
    (by
      simp only [List.forall_mem_cons, List.not_mem_nil, false_implies, implies_true, and_true]
      exact ⟨(by decide : 1 < 2 ^ 64), trivial⟩)
    (reference_free (by decide +kernel))
    storedFromAfar_password "a").2 (by decide +kernel)

end KaidaDB
