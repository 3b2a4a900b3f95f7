import KaidaDB.Api.Rest

/-!
# Running handlers

What a handler makes of a program on the store: its value, or the status or reply for its error.
-/

namespace KaidaDB

variable {α : Type} {x : M α} {a : α} {e : Fail} {s s' : Store}

theorem attempt_ok (h : x s = .ok a s') : attempt x s = .ok (.ok a) s' := by
  unfold attempt
  simp [tryCatch, tryCatchThe, MonadExceptOf.tryCatch, EStateM.tryCatch, Functor.map, EStateM.map, h]

theorem attempt_error (h : x s = .error e s') : attempt x s = .ok (.error e) s' := by
  unfold attempt
  simp [tryCatch, tryCatchThe, MonadExceptOf.tryCatch, EStateM.tryCatch, Functor.map, EStateM.map, h,
    EStateM.Backtrackable.restore, EStateM.dummyRestore, pure, EStateM.pure]

/-- A program that continues after another one. -/
theorem run_bind_server {β : Type} {x : ServerM α} {cache cache' : ChunkCache}
    (h : x cache s = .ok (a, cache') s') (f : α → ServerM β) :
    (x >>= f) cache s = f a cache' s' := by
  simp only [bind, StateT.bind, EStateM.bind]
  rw [h]

/-- A program on the store that a handler begins with. -/
theorem run_lift {β : Type} (h : x s = .ok a s') (f : α → ServerM β) (cache : ChunkCache) :
    ((x : ServerM α) >>= f) cache s = f a cache s' := by
  simp only [bind, StateT.bind, EStateM.bind]
  simp [liftM, monadLift, MonadLift.monadLift, StateT.lift, h, bind, EStateM.bind, pure, EStateM.pure]

theorem run_lift_handler {β : Type} (h : x s = .ok a s') (f : α → Handler β) (cache : ChunkCache) :
    ((x : Handler α) >>= f) cache s = f a cache s' := by
  simp only [bind, ExceptT.bind, ExceptT.mk, StateT.bind, EStateM.bind]
  simp [liftM, monadLift, MonadLift.monadLift, ExceptT.lift, StateT.lift, h, Functor.map, StateT.map,
    bind, EStateM.bind, pure, EStateM.pure, ExceptT.mk, ExceptT.bindCont]

theorem run_lift_error {β : Type} (h : x s = .error e s') (f : α → Handler β) (cache : ChunkCache) :
    ((x : Handler α) >>= f) cache s = .error e s' := by
  simp only [bind, ExceptT.bind, ExceptT.mk, StateT.bind, EStateM.bind]
  simp [liftM, monadLift, MonadLift.monadLift, ExceptT.lift, StateT.lift, h, Functor.map, StateT.map,
    bind, EStateM.bind, ExceptT.mk]

theorem mapErr_ok (f : KaidaDbError → Status) (h : x s = .ok a s') (cache : ChunkCache) :
    mapErr f x cache s = .ok (.ok a, cache) s' := by
  rw [mapErr, run_lift_handler (attempt_ok h)]
  rfl

theorem mapErr_error (f : KaidaDbError → Status) {error : KaidaDbError}
    (h : x s = .error (.error error) s') (cache : ChunkCache) :
    mapErr f x cache s = .ok (.error (f error), cache) s' := by
  rw [mapErr, run_lift_handler (attempt_error h)]
  rfl

theorem answering_ok (onError : KaidaDbError → RestReply) (f : α → RestReply) (h : x s = .ok a s')
    (cache : ChunkCache) : Rest.answering x onError f cache s = .ok (f a, cache) s' := by
  rw [Rest.answering, run_lift (attempt_ok h)]
  rfl

/-- `check_auth` has passed. -/
theorem run_intoInner {T β : Type} (message : T) (f : T → Handler β) (cache : ChunkCache) :
    ((Request.intoInner ⟨.ok (), message⟩ : Handler T) >>= f) cache s = f message cache s := rfl

theorem run_bind_ok {β : Type} {x : Handler α} {cache cache' : ChunkCache}
    (h : x cache s = .ok (.ok a, cache') s') (f : α → Handler β) :
    (x >>= f) cache s = f a cache' s' := by
  simp only [bind, ExceptT.bind, ExceptT.mk, StateT.bind, EStateM.bind]
  rw [h]
  rfl

theorem run_bind_error {β : Type} {x : Handler α} {cache cache' : ChunkCache} {status : Status}
    (h : x cache s = .ok (.error status, cache') s') (f : α → Handler β) :
    (x >>= f) cache s = .ok (.error status, cache') s' := by
  simp only [bind, ExceptT.bind, ExceptT.mk, StateT.bind, EStateM.bind]
  rw [h]
  rfl

end KaidaDB
