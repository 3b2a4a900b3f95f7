import KaidaDB.Lib.Effects

/-!
# What programs that only read return

`Reads P x s`: on `s`, `x` leaves the state as it is, and a value it returns is in `P`. The rules follow the
program text; nothing is said about which errors there are. `Returns P x s`: it does return one.
-/

namespace Effects

variable {ε σ α β : Type}

def Reads (P : α → Prop) (x : EStateM ε σ α) (s : σ) : Prop :=
  ∃ r : Except ε α, x s = result r s ∧ ∀ a, r = .ok a → P a

namespace Reads

variable {P : α → Prop} {Q : β → Prop} {x : EStateM ε σ α} {f : α → EStateM ε σ β} {s : σ}

theorem pure {a : α} (h : P a) : Reads P (Pure.pure a : EStateM ε σ α) s :=
  ⟨.ok a, rfl, fun b hb => by cases hb; exact h⟩

theorem throw (e : ε) : Reads P (MonadExcept.throw e : EStateM ε σ α) s := ⟨.error e, rfl, nofun⟩

theorem bind (hx : Reads P x s) (hf : ∀ a, P a → Reads Q (f a) s) : Reads Q (x >>= f) s := by
  obtain ⟨r, hrun, hP⟩ := hx
  cases r with
  | error e => exact ⟨.error e, by rw [run_bind, hrun]; rfl, nofun⟩
  | ok a =>
    obtain ⟨r', hrun', hQ⟩ := hf a (hP a rfl)
    exact ⟨r', by rw [run_bind, hrun]; exact hrun', hQ⟩

theorem get_bind {f : σ → EStateM ε σ β} (h : Reads Q (f s) s) : Reads Q (MonadState.get >>= f) s := h

/-- What a run that has succeeded says. -/
theorem of_ok (h : Reads P x s) {a : α} {s' : σ} (hrun : x s = .ok a s') : s' = s ∧ P a := by
  obtain ⟨r, hr, hP⟩ := h
  rw [hrun] at hr
  cases r with
  | error e => cases hr
  | ok b =>
    cases hr
    exact ⟨rfl, hP a rfl⟩

end Reads

def Returns (P : α → Prop) (x : EStateM ε σ α) (s : σ) : Prop := ∃ a, x s = .ok a s ∧ P a

namespace Returns

variable {P : α → Prop} {Q : β → Prop} {x : EStateM ε σ α} {f : α → EStateM ε σ β} {s : σ}

theorem pure {a : α} (h : P a) : Returns P (Pure.pure a : EStateM ε σ α) s := ⟨a, rfl, h⟩

theorem bind (hx : Returns P x s) (hf : ∀ a, P a → Returns Q (f a) s) : Returns Q (x >>= f) s := by
  obtain ⟨a, hrun, ha⟩ := hx
  obtain ⟨b, hrun', hb⟩ := hf a ha
  exact ⟨b, by rw [run_bind, hrun]; exact hrun', hb⟩

theorem reads (h : Returns P x s) : Reads P x s := by
  obtain ⟨a, hrun, ha⟩ := h
  exact ⟨.ok a, hrun, fun b hb => by cases hb; exact ha⟩

/-- Errors are returned as values. -/
theorem caught (h : Reads P x s) :
    Returns (fun r : Except ε α => ∀ a, r = .ok a → P a)
      (MonadExcept.tryCatch (.ok <$> x) fun e => Pure.pure (.error e)) s := by
  obtain ⟨r, hrun, hr⟩ := h
  refine ⟨r, ?_, hr⟩
  rw [run_tryCatch, run_map, hrun]
  cases r <;> rfl

end Returns

end Effects
