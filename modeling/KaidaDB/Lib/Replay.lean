import Mathlib.Data.List.Basic

/-!
# Replaying a log of updates

A log is a list of updates and replaying it is a left fold, `replay apply s es`. Where updates
are logged in one order and applied to a copy of the state in another, what counts is which of
them commute: an update may be applied before the ones in front of it that it commutes with
(`replay_pull`).
-/

namespace Replay

variable {σ ε : Type} (apply : σ → ε → σ)

/-- The state a log leads to. -/
def replay (s : σ) (es : List ε) : σ := es.foldl apply s

@[simp] theorem replay_nil (s : σ) : replay apply s [] = s := rfl

@[simp] theorem replay_cons (s : σ) (e : ε) (es : List ε) :
    replay apply s (e :: es) = replay apply (apply s e) es := rfl

theorem replay_append (s : σ) (es fs : List ε) :
    replay apply s (es ++ fs) = replay apply (replay apply s es) fs := List.foldl_append

theorem replay_snoc (s : σ) (es : List ε) (e : ε) :
    replay apply s (es ++ [e]) = apply (replay apply s es) e := by
  rw [replay_append]; rfl

/-- Two updates whose order does not matter. -/
def Commutes (e f : ε) : Prop := ∀ s, apply (apply s e) f = apply (apply s f) e

/-- An update passes a log it commutes with. -/
theorem replay_comm {e : ε} : ∀ {es : List ε} (s : σ), (∀ f ∈ es, Commutes apply f e) →
    apply (replay apply s es) e = replay apply (apply s e) es
  | [], _, _ => rfl
  | f :: es, s, h => by
    rw [replay_cons, replay_comm _ fun g hg => h g (List.mem_cons_of_mem _ hg), replay_cons,
      h f List.mem_cons_self s]

/-- An update can be applied before the ones in front of it that it commutes with. -/
theorem replay_pull {e : ε} {xs : List ε} (s : σ) (ys : List ε)
    (h : ∀ f ∈ xs, Commutes apply f e) :
    replay apply s (xs ++ e :: ys) = replay apply (apply s e) (xs ++ ys) := by
  rw [replay_append, replay_cons, replay_comm apply s h, ← replay_append]

end Replay
