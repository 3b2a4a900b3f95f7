import Mathlib.Logic.Basic

/-!
# Programs that keep their effects when they fail

An `EStateM` program changes the state it runs on also when it ends in an error, as a function
with `&self` and a `Result` does. `Does L x c r c'` says what such a program does where nothing
outside it goes wrong: from every state that is healthy and shows `c`, `x` ends with `r` (a value
or an error) in a healthy state that shows `c'`. What a state shows and when it is healthy are the
fields of `L`. The rules follow the program text: `Does.bind` for a line that succeeds,
`Does.bind_error` for one that returns early.
-/

namespace Effects

variable {ε σ γ α β : Type}

/-! ## What a program does to a state -/

theorem run_bind (x : EStateM ε σ α) (f : α → EStateM ε σ β) (s : σ) :
    (x >>= f) s = match x s with
      | .ok a s => f a s
      | .error e s => .error e s := rfl

theorem run_map (g : α → β) (x : EStateM ε σ α) (s : σ) :
    (g <$> x) s = match x s with
      | .ok a s => .ok (g a) s
      | .error e s => .error e s := rfl

theorem run_discard (x : EStateM ε σ α) (s : σ) :
    (discard x) s = match x s with
      | .ok _ s => .ok () s
      | .error e s => .error e s := rfl

theorem run_pure (a : α) (s : σ) : (Pure.pure a : EStateM ε σ α) s = .ok a s := rfl

theorem run_get (s : σ) : (MonadState.get : EStateM ε σ σ) s = .ok s s := rfl

theorem run_modifyGet (g : σ → α × σ) (s : σ) :
    (MonadState.modifyGet g : EStateM ε σ α) s = .ok (g s).1 (g s).2 := rfl

theorem run_tryCatch (x : EStateM ε σ α) (k : ε → EStateM ε σ α) (s : σ) :
    (MonadExcept.tryCatch x k) s = match x s with
      | .error e s => k e s
      | .ok a s => .ok a s := by
  show EStateM.tryCatch x k s = _
  delta EStateM.tryCatch
  cases x s <;> rfl

/-- What a success of two programs in a row comes from. -/
theorem ok_of_bind {x : EStateM ε σ α} {f : α → EStateM ε σ β} {s s' : σ} {b : β}
    (h : (x >>= f) s = .ok b s') : ∃ a s1, x s = .ok a s1 ∧ f a s1 = .ok b s' := by
  rw [run_bind] at h
  cases hr : x s with
  | ok a s1 =>
    rw [hr] at h
    exact ⟨a, s1, rfl, h⟩
  | error e s1 =>
    rw [hr] at h
    cases h

/-! ## Specifications -/

/-- How a specification looks at the states of a program. -/
structure Lens (σ γ : Type) where
  /-- Nothing outside the program goes wrong from here. -/
  healthy : σ → Prop
  /-- The part of the state specifications speak about. -/
  view : σ → γ

/-- The result of a run as core's `EStateM.Result`. -/
def result : Except ε α → σ → EStateM.Result ε σ α
  | .ok a, s => .ok a s
  | .error e, s => .error e s

@[simp] theorem result_ok (a : α) (s : σ) :
    result (.ok a : Except ε α) s = EStateM.Result.ok a s := rfl

@[simp] theorem result_error (e : ε) (s : σ) :
    result (.error e : Except ε α) s = EStateM.Result.error e s := rfl

/-- What a run returned. -/
def returned : EStateM.Result ε σ α → Except ε α
  | .ok a _ => .ok a
  | .error e _ => .error e

@[simp] theorem returned_result (r : Except ε α) (s : σ) : returned (result r s) = r := by
  cases r <;> rfl

/-- What `x` does from every healthy state that shows `c`. -/
def Does (L : Lens σ γ) (x : EStateM ε σ α) (c : γ) (r : Except ε α) (c' : γ) : Prop :=
  ∀ s, L.healthy s → L.view s = c →
    ∃ s', x s = result r s' ∧ L.healthy s' ∧ L.view s' = c'

namespace Does

variable {L : Lens σ γ} {x : EStateM ε σ α} {f : α → EStateM ε σ β} {c c' c'' : γ}

theorem pure (a : α) : Does L (Pure.pure a : EStateM ε σ α) c (.ok a) c := fun s hs hv =>
  ⟨s, rfl, hs, hv⟩

theorem throw (e : ε) : Does L (MonadExcept.throw e : EStateM ε σ α) c (.error e) c :=
  fun s hs hv => ⟨s, rfl, hs, hv⟩

theorem bind {a : α} {r : Except ε β} (hx : Does L x c (.ok a) c') (hf : Does L (f a) c' r c'') :
    Does L (x >>= f) c r c'' := by
  intro s hs hv
  obtain ⟨s1, h1, hs1, hv1⟩ := hx s hs hv
  obtain ⟨s2, h2, hs2, hv2⟩ := hf s1 hs1 hv1
  refine ⟨s2, ?_, hs2, hv2⟩
  rw [run_bind, h1]
  exact h2

theorem bind_error {e : ε} (hx : Does L x c (.error e) c') :
    Does L (x >>= f) c (.error e) c' := by
  intro s hs hv
  obtain ⟨s1, h1, hs1, hv1⟩ := hx s hs hv
  refine ⟨s1, ?_, hs1, hv1⟩
  rw [run_bind, h1]
  rfl

theorem map {a : α} (g : α → β) (hx : Does L x c (.ok a) c') :
    Does L (g <$> x) c (.ok (g a)) c' := by
  intro s hs hv
  obtain ⟨s1, h1, hs1, hv1⟩ := hx s hs hv
  refine ⟨s1, ?_, hs1, hv1⟩
  rw [run_map, h1]
  rfl

/-- Reading the state: the rest of the program may use every healthy state that shows `c`. -/
theorem get_bind {f : σ → EStateM ε σ β} {r : Except ε β}
    (h : ∀ s, L.healthy s → L.view s = c → Does L (f s) c r c') :
    Does L (MonadState.get >>= f) c r c' := fun s hs hv => h s hs hv s hs hv

/-- A handler does not run after a success. -/
theorem tryCatch_ok {a : α} {k : ε → EStateM ε σ α} (hx : Does L x c (.ok a) c') :
    Does L (MonadExcept.tryCatch x k) c (.ok a) c' := by
  intro s hs hv
  obtain ⟨s1, h1, hs1, hv1⟩ := hx s hs hv
  refine ⟨s1, ?_, hs1, hv1⟩
  rw [run_tryCatch, h1]
  rfl

/-- A handler takes over after an error. -/
theorem tryCatch_error {e : ε} {k : ε → EStateM ε σ α} {r : Except ε α}
    (hx : Does L x c (.error e) c') (hk : Does L (k e) c' r c'') :
    Does L (MonadExcept.tryCatch x k) c r c'' := by
  intro s hs hv
  obtain ⟨s1, h1, hs1, hv1⟩ := hx s hs hv
  obtain ⟨s2, h2, hs2, hv2⟩ := hk s1 hs1 hv1
  refine ⟨s2, ?_, hs2, hv2⟩
  rw [run_tryCatch, h1]
  exact h2

theorem map_error {e : ε} (g : α → β) (hx : Does L x c (.error e) c') :
    Does L (g <$> x) c (.error e) c' := by
  intro s hs hv
  obtain ⟨s1, h1, hs1, hv1⟩ := hx s hs hv
  refine ⟨s1, ?_, hs1, hv1⟩
  rw [run_map, h1]
  rfl

/-- Only what the program does from states that show `c` counts. -/
theorem congr {y : EStateM ε σ α} {r : Except ε α} (hy : Does L y c r c')
    (h : ∀ s, L.view s = c → x s = y s) : Does L x c r c' := by
  intro s hs hv
  rw [h s hv]
  exact hy s hs hv

end Does

/-! ## Programs that fail in known ways -/

/-- However `x` fails, the error is in `P`. -/
def FailsWith (P : ε → Prop) (x : EStateM ε σ α) : Prop := ∀ s e s', x s = .error e s' → P e

namespace FailsWith

variable {P : ε → Prop} {x : EStateM ε σ α} {f : α → EStateM ε σ β}

theorem pure (a : α) : FailsWith P (Pure.pure a : EStateM ε σ α) := fun _ _ _ h => by cases h

theorem throw {e : ε} (h : P e) : FailsWith P (MonadExcept.throw e : EStateM ε σ α) :=
  fun _ _ _ he => by
    cases he
    exact h

theorem modifyGet (g : σ → α × σ) : FailsWith P (MonadState.modifyGet g : EStateM ε σ α) :=
  fun _ _ _ h => by cases h

theorem bind (hx : FailsWith P x) (hf : ∀ a, FailsWith P (f a)) : FailsWith P (x >>= f) := by
  intro s e s' h
  rw [run_bind] at h
  cases hr : x s with
  | ok a s1 =>
    rw [hr] at h
    exact hf a s1 e s' h
  | error e1 s1 =>
    rw [hr] at h
    cases h
    exact hx s e s' hr

theorem get_bind {f : σ → EStateM ε σ β} (h : ∀ s, FailsWith P (f s)) :
    FailsWith P (MonadState.get >>= f) := fun s e s' he => h s s e s' he

theorem forM {f : α → EStateM ε σ PUnit} (h : ∀ a, FailsWith P (f a)) (l : List α) :
    FailsWith P (l.forM f) := by
  induction l with
  | nil => exact pure _
  | cons a l ih => exact bind (h a) fun _ => ih

/-- Only the errors that the handler lets through are left. -/
theorem tryCatch {Q : ε → Prop} {k : ε → EStateM ε σ α} (hx : FailsWith P x)
    (hk : ∀ e, P e → FailsWith Q (k e)) : FailsWith Q (MonadExcept.tryCatch x k) := by
  intro s e s' h
  rw [run_tryCatch] at h
  cases hr : x s with
  | ok a s1 =>
    rw [hr] at h
    cases h
  | error e1 s1 =>
    rw [hr] at h
    exact hk e1 (hx s e1 s1 hr) s1 e s' h

theorem map (g : α → β) (hx : FailsWith P x) : FailsWith P (g <$> x) := by
  intro s e s' h
  rw [run_map] at h
  cases hr : x s with
  | ok a s1 =>
    rw [hr] at h
    cases h
  | error e1 s1 =>
    rw [hr] at h
    cases h
    exact hx s e s' hr

end FailsWith

/-! ## Programs that only read -/

/-- From `s` and from `t`, `x` ends with the same result and leaves the state as it is. -/
def Agrees (x : EStateM ε σ α) (s t : σ) : Prop := ∃ r, x s = result r s ∧ x t = result r t

namespace Agrees

variable {x : EStateM ε σ α} {f : α → EStateM ε σ β} {s t : σ}

theorem pure (a : α) : Agrees (Pure.pure a : EStateM ε σ α) s t := ⟨.ok a, rfl, rfl⟩

theorem throw (e : ε) : Agrees (MonadExcept.throw e : EStateM ε σ α) s t := ⟨.error e, rfl, rfl⟩

theorem bind (hx : Agrees x s t) (hf : ∀ a, x s = .ok a s → Agrees (f a) s t) :
    Agrees (x >>= f) s t := by
  obtain ⟨r, hs, ht⟩ := hx
  cases r with
  | error e =>
    refine ⟨.error e, ?_, ?_⟩
    · rw [run_bind, hs]
      rfl
    · rw [run_bind, ht]
      rfl
  | ok a =>
    obtain ⟨r', hs', ht'⟩ := hf a hs
    refine ⟨r', ?_, ?_⟩
    · rw [run_bind, hs]
      exact hs'
    · rw [run_bind, ht]
      exact ht'

/-- Both states give the rest of the program the same to work on. -/
theorem get_bind {f : σ → EStateM ε σ β} (hf : f s = f t) (h : Agrees (f t) s t) :
    Agrees (MonadState.get >>= f) s t := by
  obtain ⟨r, hs, ht⟩ := h
  exact ⟨r, (congrFun hf s).trans hs, ht⟩

/-- The result is the same, and the first state is left as it is. -/
theorem returned_eq (h : Agrees x s t) : returned (x s) = returned (x t) := by
  obtain ⟨r, hs, ht⟩ := h
  rw [hs, ht, returned_result, returned_result]

end Agrees

end Effects
