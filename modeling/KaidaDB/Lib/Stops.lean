import KaidaDB.Lib.Effects

/-!
# Programs on a machine that stops

The machine a program runs on may stop after some operations: the program goes on, but nothing it
does from then on leaves a trace. A `Mortal` says how such a machine looks from outside: `alive n v`
is the view `v` with `n` operations to come, and `stopped` holds of the views past the last one.
`Stops L P x c r c'`: on a machine that shows `c`, whenever it stops, `x` either ends as it would
without the stop, with `r` and showing `c'`, or leaves a stopped view in `P`. The rules follow the
program text as those of `Does` do; what comes after the stop has to stay there (`Keeps`).
-/

namespace Effects

variable {ε σ γ α β : Type}

/-- The state a run leaves. -/
def left : EStateM.Result ε σ α → σ
  | .ok _ s => s
  | .error _ s => s

@[simp] theorem left_result (r : Except ε α) (s : σ) : left (result r s) = s := by
  cases r <;> rfl

/-- `x` does not lead out of `I`, however it ends. -/
def Keeps (I : σ → Prop) (x : EStateM ε σ α) : Prop := ∀ s, I s → I (left (x s))

namespace Keeps

variable {I : σ → Prop} {x : EStateM ε σ α} {f : α → EStateM ε σ β}

theorem pure (a : α) : Keeps I (Pure.pure a : EStateM ε σ α) := fun _ h => h

theorem throw (e : ε) : Keeps I (MonadExcept.throw e : EStateM ε σ α) := fun _ h => h

theorem throw_bind (e : ε) : Keeps I (MonadExcept.throw e >>= f) := fun _ h => h

/-- The rest of the program keeps what the first part has reached. -/
theorem after_bind {s : σ} (h : I (left (x s))) (hf : ∀ a, Keeps I (f a)) :
    I (left ((x >>= f) s)) := by
  rw [run_bind]
  cases hr : x s with
  | ok a s1 =>
    rw [hr] at h
    exact hf a s1 h
  | error e s1 =>
    rw [hr] at h
    exact h

theorem after_tryCatch {k : ε → EStateM ε σ α} {s : σ} (h : I (left (x s)))
    (hk : ∀ e, Keeps I (k e)) : I (left (MonadExcept.tryCatch x k s)) := by
  rw [run_tryCatch]
  cases hr : x s with
  | ok a s1 =>
    rw [hr] at h
    exact h
  | error e s1 =>
    rw [hr] at h
    exact hk e s1 h

theorem left_map (g : α → β) (s : σ) : left ((g <$> x) s) = left (x s) := by
  show left (EStateM.map g x s) = _
  rw [EStateM.map]
  cases x s <;> rfl

theorem bind (hx : Keeps I x) (hf : ∀ a, Keeps I (f a)) : Keeps I (x >>= f) := fun s hs =>
  after_bind (hx s hs) hf

theorem get_bind {f : σ → EStateM ε σ β} (h : ∀ s, Keeps I (f s)) :
    Keeps I (MonadState.get >>= f) := fun s hs => h s s hs

theorem map (g : α → β) (hx : Keeps I x) : Keeps I (g <$> x) := fun s hs =>
  (left_map g s).symm ▸ hx s hs

theorem tryCatch {k : ε → EStateM ε σ α} (hx : Keeps I x) (hk : ∀ e, Keeps I (k e)) :
    Keeps I (MonadExcept.tryCatch x k) := fun s hs => after_tryCatch (hx s hs) hk

theorem forM {f : α → EStateM ε σ PUnit} (h : ∀ a, Keeps I (f a)) :
    ∀ l : List α, Keeps I (l.forM f)
  | [] => pure _
  | a :: l => bind (h a) fun _ => forM h l

end Keeps

/-- A healthy state whose view is in `P`. -/
def Lens.Holds (L : Lens σ γ) (P : γ → Prop) (s : σ) : Prop := L.healthy s ∧ P (L.view s)

theorem Keeps.of_holds {L : Lens σ γ} {P : γ → Prop} {x : EStateM ε σ α} (h : ∀ c, P c →
    ∃ (r : Except ε α) (c' : γ), Does L x c r c' ∧ P c') : Keeps (L.Holds P) x := by
  rintro s ⟨hs, hP⟩
  obtain ⟨r, c', hx, hP'⟩ := h _ hP
  obtain ⟨s', h1, hs', rfl⟩ := hx s hs rfl
  rw [h1, left_result]
  exact ⟨hs', hP'⟩

/-- A machine that stops. -/
structure Mortal (σ γ : Type) extends Lens σ γ where
  alive : Nat → γ → γ
  stopped : γ → Prop

variable {L : Mortal σ γ} {P : γ → Prop} {x : EStateM ε σ α} {f : α → EStateM ε σ β}
  {c c' c'' d : γ} {r : Except ε α} {r' : Except ε β}

/-- The machine has stopped at a view in `P`. -/
structure Mortal.Dead (L : Mortal σ γ) (P : γ → Prop) (s : σ) : Prop where
  healthy : L.healthy s
  stopped : L.stopped (L.view s)
  safe : P (L.view s)

theorem Keeps.of_does (h : ∀ c, L.stopped c → P c →
    ∃ (r : Except ε α) (c' : γ), Does L.toLens x c r c' ∧ L.stopped c' ∧ P c') :
    Keeps (L.Dead P) x := by
  rintro s ⟨hs, hstop, hP⟩
  have hx : Keeps (L.toLens.Holds fun c => L.stopped c ∧ P c) x :=
    Keeps.of_holds fun c hc => h c hc.1 hc.2
  obtain ⟨hs', hstop', hP'⟩ := hx s ⟨hs, hstop, hP⟩
  exact ⟨hs', hstop', hP'⟩

/-- What `x` does whenever the machine stops (module doc). -/
def Stops (L : Mortal σ γ) (P : γ → Prop) (x : EStateM ε σ α) (c : γ) (r : Except ε α)
    (c' : γ) : Prop :=
  ∀ n s, L.healthy s → L.view s = L.alive n c →
    (∃ m s', x s = result r s' ∧ L.healthy s' ∧ L.view s' = L.alive m c') ∨
      L.Dead P (left (x s))

namespace Stops

/-- A program without operations. -/
theorem of_does (h : ∀ n, Does L.toLens x (L.alive n c) r (L.alive n c')) : Stops L P x c r c' :=
  fun n s hs hv =>
    have ⟨s', h1, h2, h3⟩ := h n s hs hv
    .inl ⟨n, s', h1, h2, h3⟩

/-- One operation: it is made, or the machine has stopped before it. -/
theorem op {r0 : Except ε α} (h : ∀ n, Does L.toLens x (L.alive (n + 1) c) r (L.alive n c'))
    (h0 : Does L.toLens x (L.alive 0 c) r0 d) (hd : L.stopped d) (hP : P d) :
    Stops L P x c r c' := by
  intro n s hs hv
  cases n with
  | zero =>
    obtain ⟨s', h1, h2, rfl⟩ := h0 s hs hv
    rw [h1, left_result]
    exact .inr ⟨h2, hd, hP⟩
  | succ n =>
    obtain ⟨s', h1, h2, h3⟩ := h n s hs hv
    exact .inl ⟨n, s', h1, h2, h3⟩

/-- Stopped or not, what is left is in `P`. -/
theorem left_safe {n : Nat} {s : σ} (h : Stops L P x c r c') (hs : L.healthy s)
    (hv : L.view s = L.alive n c) (hP : ∀ m, P (L.alive m c')) :
    L.healthy (left (x s)) ∧ P (L.view (left (x s))) := by
  rcases h n s hs hv with ⟨m, s', h1, h2, h3⟩ | hdead
  · rw [h1, left_result, h3]
    exact ⟨h2, hP m⟩
  · exact ⟨hdead.healthy, hdead.safe⟩

theorem pure (a : α) : Stops L P (Pure.pure a : EStateM ε σ α) c (.ok a) c :=
  of_does fun _ => .pure a

theorem bind {a : α} (hx : Stops L P x c (.ok a) c') (hf : Stops L P (f a) c' r' c'')
    (hk : ∀ a, Keeps (L.Dead P) (f a)) : Stops L P (x >>= f) c r' c'' := by
  intro n s hs hv
  rcases hx n s hs hv with ⟨m, s1, h1, hs1, hv1⟩ | hdead
  · have hrun : (x >>= f) s = f a s1 := by
      rw [run_bind, h1]
      rfl
    rw [hrun]
    exact hf m s1 hs1 hv1
  · exact .inr (Keeps.after_bind hdead hk)

/-- Reading the state: the rest of the program may use every healthy state that shows `c`. -/
theorem get_bind {f : σ → EStateM ε σ β}
    (h : ∀ n s, L.healthy s → L.view s = L.alive n c → Stops L P (f s) c r' c') :
    Stops L P (MonadState.get >>= f) c r' c' := fun n s hs hv => h n s hs hv n s hs hv

theorem tryCatch_ok {a : α} {k : ε → EStateM ε σ α} (hx : Stops L P x c (.ok a) c')
    (hk : ∀ e, Keeps (L.Dead P) (k e)) : Stops L P (MonadExcept.tryCatch x k) c (.ok a) c' := by
  intro n s hs hv
  rcases hx n s hs hv with ⟨m, s1, h1, hs1, hv1⟩ | hdead
  · refine .inl ⟨m, s1, ?_, hs1, hv1⟩
    rw [run_tryCatch, h1]
    rfl
  · exact .inr (Keeps.after_tryCatch hdead hk)

theorem tryCatch_error {e : ε} {k : ε → EStateM ε σ α} (hx : Stops L P x c (.error e) c')
    (hk' : Stops L P (k e) c' r c'') (hk : ∀ e, Keeps (L.Dead P) (k e)) :
    Stops L P (MonadExcept.tryCatch x k) c r c'' := by
  intro n s hs hv
  rcases hx n s hs hv with ⟨m, s1, h1, hs1, hv1⟩ | hdead
  · have hrun : MonadExcept.tryCatch x k s = k e s1 := by
      rw [run_tryCatch, h1]
      rfl
    rw [hrun]
    exact hk' m s1 hs1 hv1
  · exact .inr (Keeps.after_tryCatch hdead hk)

end Stops

end Effects
