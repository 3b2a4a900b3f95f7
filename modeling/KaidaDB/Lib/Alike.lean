import KaidaDB.Lib.Effects

/-!
# A program run from two states

`Alike E R x s t`: from `s` and from `t`, `x` fails in the same way, in states that `E` relates, or it
returns the same value, and `R` relates the states then. A relation that both states stay in is carried
through a program along its text.
-/

namespace Effects

variable {ε σ α β : Type}

inductive Alike (E : σ → σ → Prop) (R : α → σ → σ → Prop) (x : EStateM ε σ α) (s t : σ) : Prop where
  | ok (a : α) (s' t' : σ) (left : x s = .ok a s') (right : x t = .ok a t') (related : R a s' t')
  | error (e : ε) (s' t' : σ) (left : x s = .error e s') (right : x t = .error e t') (related : E s' t')

namespace Alike

variable {E : σ → σ → Prop} {R R' : α → σ → σ → Prop} {Q : β → σ → σ → Prop} {x : EStateM ε σ α}
  {f : α → EStateM ε σ β} {s t : σ}

theorem pure {a : α} (h : R a s t) : Alike E R (Pure.pure a : EStateM ε σ α) s t := .ok a s t rfl rfl h

theorem throw {e : ε} (h : E s t) : Alike E R (MonadExcept.throw e : EStateM ε σ α) s t :=
  .error e s t rfl rfl h

theorem bind (hx : Alike E R x s t) (hf : ∀ a s' t', R a s' t' → Alike E Q (f a) s' t') :
    Alike E Q (x >>= f) s t := by
  cases hx with
  | error e s' t' hs ht h => exact .error e s' t' (by rw [run_bind, hs]) (by rw [run_bind, ht]) h
  | ok a s' t' hs ht h =>
    cases hf a s' t' h with
    | ok b s'' t'' hs' ht' h' =>
      exact .ok b s'' t'' (by rw [run_bind, hs]; exact hs') (by rw [run_bind, ht]; exact ht') h'
    | error e s'' t'' hs' ht' h' =>
      exact .error e s'' t'' (by rw [run_bind, hs]; exact hs') (by rw [run_bind, ht]; exact ht') h'

theorem throw_bind {e : ε} (h : E s t) :
    Alike E Q ((MonadExcept.throw e : EStateM ε σ α) >>= f) s t := .error e s t rfl rfl h

/-- Both states give the rest of the program the same to work on. -/
theorem get_bind {f : σ → EStateM ε σ β} (hf : f s = f t) (h : Alike E Q (f t) s t) :
    Alike E Q (MonadState.get >>= f) s t := by
  cases h with
  | ok b s' t' hs ht h => exact .ok b s' t' ((congrFun hf s).trans hs) ht h
  | error e s' t' hs ht h => exact .error e s' t' ((congrFun hf s).trans hs) ht h

theorem mono (h : Alike E R x s t) (hR : ∀ a s' t', R a s' t' → R' a s' t') : Alike E R' x s t := by
  cases h with
  | ok a s' t' hs ht h => exact .ok a s' t' hs ht (hR a s' t' h)
  | error e s' t' hs ht h => exact .error e s' t' hs ht h

theorem map {R : β → σ → σ → Prop} (g : α → β) (h : Alike E (fun a => R (g a)) x s t) :
    Alike E R (g <$> x) s t := by
  cases h with
  | ok a s' t' hs ht h => exact .ok (g a) s' t' (by rw [run_map, hs]) (by rw [run_map, ht]) h
  | error e s' t' hs ht h => exact .error e s' t' (by rw [run_map, hs]) (by rw [run_map, ht]) h

theorem tryCatch {E' : σ → σ → Prop} {k : ε → EStateM ε σ α} (hx : Alike E R x s t)
    (hk : ∀ e s' t', E s' t' → Alike E' R (k e) s' t') : Alike E' R (MonadExcept.tryCatch x k) s t := by
  cases hx with
  | ok a s' t' hs ht h => exact .ok a s' t' (by rw [run_tryCatch, hs]) (by rw [run_tryCatch, ht]) h
  | error e s' t' hs ht h =>
    cases hk e s' t' h with
    | ok a s'' t'' hs' ht' h' =>
      exact .ok a s'' t'' (by rw [run_tryCatch, hs]; exact hs') (by rw [run_tryCatch, ht]; exact ht') h'
    | error e' s'' t'' hs' ht' h' =>
      exact .error e' s'' t'' (by rw [run_tryCatch, hs]; exact hs') (by rw [run_tryCatch, ht]; exact ht') h'

theorem forM {K : σ → σ → Prop} {f : α → EStateM ε σ PUnit}
    (h : ∀ a s t, K s t → Alike K (fun _ => K) (f a) s t) :
    ∀ (l : List α) {s t : σ}, K s t → Alike K (fun _ => K) (l.forM f) s t
  | [], _, _, hK => pure hK
  | a :: l, s, t, hK => bind (h a s t hK) fun _ _ _ hK' => forM h l hK'

/-- What is known of the first run says how the second one ends. -/
theorem result {K : σ → σ → Prop} (h : Alike K (fun _ => K) x s t) {r : Except ε α} {s' : σ}
    (hrun : x s = result r s') : ∃ t', x t = Effects.result r t' ∧ K s' t' := by
  cases h with
  | ok a s1 t1 hs ht h =>
    rw [hs] at hrun
    cases r with
    | error e => cases hrun
    | ok b =>
      cases hrun
      exact ⟨t1, ht, h⟩
  | error e s1 t1 hs ht h =>
    rw [hs] at hrun
    cases r with
    | ok b => cases hrun
    | error e' =>
      cases hrun
      exact ⟨t1, ht, h⟩

end Alike

end Effects
