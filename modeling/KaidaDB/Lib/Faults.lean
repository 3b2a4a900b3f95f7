import Mathlib.Data.Stream.Defs
import KaidaDB.Lib.Effects

/-!
# Programs whose operations may fail once

The operations a program makes on the world outside take their outcomes from a stream of plans; one plan
means success. In `once good n fault` the plan after the first `n` is `fault` and all others are
`good`. `Attempts L x c k done failed`: in such a world `x` makes `k` operations if it succeeds, and then
`done` holds; or it fails at the operation with the fault, one of these `k`, and `failed` holds of the
number of operations before it and of what is left, where nothing more goes wrong. The rules follow
the program text.
-/

namespace Effects

variable {ε σ γ α β π : Type}

/-- All plans are `good` except the one after the first `n`. -/
def once (good : π) (n : Nat) (fault : π) : Stream' π := fun i => if i = n then fault else good

@[simp] theorem once_good (good : π) (n : Nat) : once good n good = Stream'.const good := by
  funext i
  show (if i = n then good else good) = good
  rw [ite_self]

theorem head_once_zero (good fault : π) : (once good 0 fault).head = fault := rfl

theorem head_once_succ (good : π) (n : Nat) (fault : π) : (once good (n + 1) fault).head = good := rfl

theorem tail_once_zero (good fault : π) : (once good 0 fault).tail = Stream'.const good := rfl

theorem tail_once_succ (good : π) (n : Nat) (fault : π) :
    (once good (n + 1) fault).tail = once good n fault := by
  funext i
  show (if i + 1 = n + 1 then fault else good) = if i = n then fault else good
  simp only [Nat.add_right_cancel_iff]

/-- How specifications look at states with a stream of plans, and how a program fails. -/
structure Faulty (ε σ γ π : Type) extends Lens σ γ where
  plans : γ → Stream' π
  good : π
  err : ε

/-- What is left of `once good n fault` after `k` operations. -/
structure Faulty.After (L : Faulty ε σ γ π) (k n : Nat) (fault : π) (c : γ) (n' : Nat) (fault' : π) :
    Prop where
  plans : L.plans c = once L.good n' fault'
  before : k ≤ n → n' = n - k ∧ fault' = fault
  past : n < k → fault' = L.good

/-- What a program with `k` operations does where one may fail (module doc). -/
def Attempts (L : Faulty ε σ γ π) (x : EStateM ε σ α) (c : γ) (k : Nat) (done : α → γ → Prop)
    (failed : Nat → γ → Prop) : Prop :=
  ∀ n fault, L.plans c = once L.good n fault →
    (∃ a c' n' fault', Does L.toLens x c (.ok a) c' ∧ done a c' ∧ L.After k n fault c' n' fault') ∨
    ∃ c', Does L.toLens x c (.error L.err) c' ∧ failed n c' ∧ L.plans c' = Stream'.const L.good ∧
      n < k ∧ fault ≠ L.good

namespace Attempts

variable {L : Faulty ε σ γ π} {x : EStateM ε σ α} {f : α → EStateM ε σ β} {c c' : γ} {k l : Nat}
  {done : α → γ → Prop} {done' : β → γ → Prop} {failed : Nat → γ → Prop}

/-- A program without operations. -/
theorem of_does {a : α} (h : Does L.toLens x c (.ok a) c') (hp : L.plans c' = L.plans c)
    (hd : done a c') : Attempts L x c 0 done failed := fun n fault hio =>
  .inl ⟨a, c', n, fault, h, hd, hp.trans hio, fun _ => ⟨rfl, rfl⟩, fun hlt => absurd hlt n.not_lt_zero⟩

theorem pure {a : α} (h : done a c) : Attempts L (Pure.pure a) c 0 done failed :=
  of_does (Does.pure a) rfl h

/-- One operation, which takes the first plan. -/
theorem op (h : (∃ a c', Does L.toLens x c (.ok a) c' ∧ done a c' ∧ L.plans c' = (L.plans c).tail) ∨
    (L.plans c).head ≠ L.good ∧ ∃ c', Does L.toLens x c (.error L.err) c' ∧ failed 0 c' ∧
      L.plans c' = (L.plans c).tail) : Attempts L x c 1 done failed := by
  intro n fault hio
  rw [hio] at h
  cases n with
  | zero =>
    rw [head_once_zero, tail_once_zero] at h
    rcases h with ⟨a, c', hx, hd, hp⟩ | ⟨hne, c', hx, hf, hp⟩
    · exact .inl ⟨a, c', 0, L.good, hx, hd, by rw [hp, once_good], fun h => by omega, fun _ => rfl⟩
    · exact .inr ⟨c', hx, hf, hp, Nat.zero_lt_one, hne⟩
  | succ n =>
    rw [head_once_succ, tail_once_succ] at h
    rcases h with ⟨a, c', hx, hd, hp⟩ | ⟨hne, -⟩
    · exact .inl ⟨a, c', n, fault, hx, hd, hp, fun _ => ⟨rfl, rfl⟩, fun h => by omega⟩
    · exact absurd rfl hne

/-- The failure of the second program is counted from the start of the first. -/
theorem bind (hx : Attempts L x c k done failed)
    (hf : ∀ a c', done a c' → Attempts L (f a) c' l done' fun n => failed (k + n)) :
    Attempts L (x >>= f) c (k + l) done' failed := by
  intro n fault hio
  rcases hx n fault hio with ⟨a, c1, n1, fault1, hx1, hd1, h1⟩ | ⟨c1, hx1, hf1, hp1, hlt, hne⟩
  · rcases hf a c1 hd1 n1 fault1 h1.plans with
      ⟨b, c2, n2, fault2, hx2, hd2, h2⟩ | ⟨c2, hx2, hf2, hp2, hlt, hne⟩
    · refine .inl ⟨b, c2, n2, fault2, hx1.bind hx2, hd2, h2.plans, fun hle => ?_, fun hlt => ?_⟩
      · obtain ⟨rfl, rfl⟩ := h1.before (by omega)
        obtain ⟨rfl, rfl⟩ := h2.before (by omega)
        exact ⟨Nat.sub_sub n k l, rfl⟩
      · by_cases hk : k ≤ n
        · obtain ⟨rfl, rfl⟩ := h1.before hk
          exact h2.past (by omega)
        · obtain rfl := h1.past (by omega)
          by_cases hl : l ≤ n1
          · exact (h2.before hl).2
          · exact h2.past (by omega)
    · -- a fault that is left lies after the first program
      have hk : k ≤ n := Nat.not_lt.1 fun hlt => hne (h1.past hlt)
      obtain ⟨rfl, rfl⟩ := h1.before hk
      refine .inr ⟨c2, hx1.bind hx2, ?_, hp2, by omega, hne⟩
      rwa [Nat.add_sub_cancel' hk] at hf2
  · exact .inr ⟨c1, hx1.bind_error, hf1, hp1, by omega, hne⟩

theorem mono {done' : α → γ → Prop} {failed' : Nat → γ → Prop} (h : Attempts L x c k done failed)
    (hd : ∀ a c', done a c' → done' a c') (hf : ∀ n c', n < k → failed n c' → failed' n c') :
    Attempts L x c k done' failed' := by
  intro n fault hio
  rcases h n fault hio with ⟨a, c', n', fault', hx, hdone, h'⟩ | ⟨c', hx, hfailed, hp, hlt, hne⟩
  · exact .inl ⟨a, c', n', fault', hx, hd a c' hdone, h'⟩
  · exact .inr ⟨c', hx, hf n c' hlt hfailed, hp, hlt, hne⟩

/-- Only what the program does from states that show `c` counts. -/
theorem congr {y : EStateM ε σ α} (h : ∀ s, L.view s = c → x s = y s)
    (hy : Attempts L y c k done failed) : Attempts L x c k done failed := by
  intro n fault hio
  rcases hy n fault hio with ⟨a, c', n', fault', hy, hd⟩ | ⟨c', hy, hf⟩
  · exact .inl ⟨a, c', n', fault', hy.congr h, hd⟩
  · exact .inr ⟨c', hy.congr h, hf⟩

end Attempts

end Effects
