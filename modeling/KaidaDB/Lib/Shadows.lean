import KaidaDB.Lib.Effects

/-!
# A run beside one that fails less

`Shadows R P x y`: from states related by `R`, `x` ends in an error in `P`, or it ends as `y` does from
the other state, and where they return a value the states are related again. What is known of the runs
of `y` then holds of every run of `x` that ends in no error of `P`. The rules follow the program text.
-/

namespace Effects

variable {ε σ τ α β : Type}

def Shadows (R : σ → τ → Prop) (P : ε → Prop) (x : EStateM ε σ α) (y : EStateM ε τ α) : Prop :=
  ∀ s t, R s t → (∃ e s', x s = .error e s' ∧ (P e ∨ ∃ t', y t = .error e t')) ∨
    ∃ a s' t', x s = .ok a s' ∧ y t = .ok a t' ∧ R s' t'

namespace Shadows

variable {R : σ → τ → Prop} {P : ε → Prop} {x : EStateM ε σ α} {y : EStateM ε τ α}
  {f : α → EStateM ε σ β} {g : α → EStateM ε τ β}

theorem pure (a : α) : Shadows R P (Pure.pure a) (Pure.pure a) := fun s t h =>
  .inr ⟨a, s, t, rfl, rfl, h⟩

theorem throw (e : ε) : Shadows R P (MonadExcept.throw e : EStateM ε σ α) (MonadExcept.throw e) :=
  fun s t _ => .inl ⟨e, s, rfl, .inr ⟨t, rfl⟩⟩

theorem bind (hx : Shadows R P x y) (hf : ∀ a, Shadows R P (f a) (g a)) :
    Shadows R P (x >>= f) (y >>= g) := by
  intro s t h
  rcases hx s t h with ⟨e, s', hs, he⟩ | ⟨a, s', t', hs, ht, h'⟩
  · refine .inl ⟨e, s', ?_, he.imp_right fun ⟨t', ht⟩ => ⟨t', ?_⟩⟩
    · rw [run_bind, hs]
    · rw [run_bind, ht]
  · rw [run_bind, run_bind, hs, ht]
    exact hf a s' t' h'

/-- Reading the state: the rest may look at the two states as they are. -/
theorem get_bind {f : σ → EStateM ε σ β} {g : τ → EStateM ε τ β}
    (h : ∀ s t, R s t → Shadows R P (f s) (g t)) :
    Shadows R P (MonadState.get >>= f) (MonadState.get >>= g) := fun s t hR => h s t hR s t hR

theorem update {f : σ → σ} {g : τ → τ} (h : ∀ s t, R s t → R (f s) (g t)) :
    Shadows R P (modify f) (modify g) := fun s t hR =>
  .inr ⟨(), f s, g t, rfl, rfl, h s t hR⟩

theorem forM {γ : Type} {f : γ → EStateM ε σ PUnit} {g : γ → EStateM ε τ PUnit}
    (h : ∀ c, Shadows R P (f c) (g c)) : ∀ l : List γ, Shadows R P (l.forM f) (l.forM g)
  | [] => pure _
  | c :: l => (h c).bind fun _ => forM h l

/-- Beside a run that returns a value: an error in `P`, or the same value. -/
theorem ends {s : σ} {t t' : τ} {a : α} (h : Shadows R P x y) (hR : R s t) (hy : y t = .ok a t') :
    (∃ e s', x s = .error e s' ∧ P e) ∨ ∃ s', x s = .ok a s' ∧ R s' t' := by
  rcases h s t hR with ⟨e, s', hs, he | ⟨t1, ht⟩⟩ | ⟨b, s', t1, hs, ht, h'⟩
  · exact .inl ⟨e, s', hs, he⟩
  · rw [hy] at ht
    cases ht
  · rw [hy] at ht
    cases ht
    exact .inr ⟨s', hs, h'⟩

end Shadows

end Effects
