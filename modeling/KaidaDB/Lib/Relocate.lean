import Mathlib.Data.List.Nodup
import Mathlib.Data.Set.Function
import Mathlib.Logic.Function.Basic

/-!
# Moving entries one at a time

A table is a function to `Option`. `move` takes the entry at `a` to `f a`, changed by `g`, and is refused
where something is already there; `moveAll` moves a list of entries in order and counts what is refused.
If the targets hold nothing but entries that are to be moved themselves, nothing is refused exactly if
no target is the place of an entry that is moved later (`refused_eq_zero_iff`), and then the table is that
of moving all entries at once (`Relocated`).
-/

namespace Relocate

variable {α β : Type} [DecidableEq α] (f : α → α) (g : α → β → β)

/-- The table with the entry `b` at `a` moved. -/
def moved (t : α → Option β) (a : α) (b : β) : α → Option β :=
  Function.update (Function.update t (f a) (some (g a b))) a none

def move (t : α → Option β) (a : α) : Option (α → Option β) :=
  match t a with
  | none => none
  | some b => if (t (f a)).isSome then none else some (moved f g t a b)

/-- The moves in order, and how many are refused. -/
def moveAll : List α → (α → Option β) → (α → Option β) × Nat
  | [], t => (t, 0)
  | a :: l, t =>
    match move f g t a with
    | some t' => moveAll l t'
    | none => ((moveAll l t).1, (moveAll l t).2 + 1)

/-- From `t` to `t'` all entries of the list are moved at once, and no other changes. -/
structure Relocated (l : List α) (t t' : α → Option β) : Prop where
  moved : ∀ a ∈ l, t' (f a) = (t a).map (g a)
  left : ∀ a ∈ l, (∀ b ∈ l, f b ≠ a) → t' a = none
  others : ∀ k, k ∉ l → (∀ a ∈ l, f a ≠ k) → t' k = t k

/-- The entries have different places and targets, and only they are at their targets. -/
structure Free (l : List α) (t : α → Option β) : Prop where
  nodup : l.Nodup
  injOn : Set.InjOn f {a | a ∈ l}
  stored : ∀ a ∈ l, (t a).isSome = true
  target : ∀ a ∈ l, (t (f a)).isSome = true → f a ∈ l
  moves : ∀ a ∈ l, f a ≠ a

variable {f g} {l : List α} {t : α → Option β} {a : α} {b : β}

section
variable (h : Free f (a :: l) t) (hfree : t (f a) = none)
include h hfree

omit [DecidableEq α] in
theorem Free.target_not_mem : f a ∉ l := fun hmem => by
  have := h.stored _ (List.mem_cons_of_mem _ hmem)
  rw [hfree] at this
  cases this

theorem Free.moved_eq {k : α} (hk : k ∈ l) : Relocate.moved f g t a b k = t k := by
  have hne : k ≠ a := fun he => (List.nodup_cons.1 h.nodup).1 (he ▸ hk)
  have hne' : k ≠ f a := fun he => h.target_not_mem hfree (he ▸ hk)
  rw [Relocate.moved, Function.update_of_ne hne, Function.update_of_ne hne']

/-- The entries behind the first can still be moved. -/
theorem Free.tail : Free f l (Relocate.moved f g t a b) where
  nodup := (List.nodup_cons.1 h.nodup).2
  injOn := h.injOn.mono fun _ => List.mem_cons_of_mem _
  stored c hc := by
    rw [h.moved_eq hfree hc]
    exact h.stored c (List.mem_cons_of_mem _ hc)
  target c hc hsome := by
    by_cases hca : f c = a
    · rw [hca, Relocate.moved, Function.update_self] at hsome
      cases hsome
    by_cases hcfa : f c = f a
    · have := h.injOn (List.mem_cons_of_mem _ hc) List.mem_cons_self hcfa
      exact absurd (this ▸ hc) (List.nodup_cons.1 h.nodup).1
    · rw [Relocate.moved, Function.update_of_ne hca, Function.update_of_ne hcfa] at hsome
      exact (List.mem_cons.1 (h.target c (List.mem_cons_of_mem _ hc) hsome)).resolve_left hca
  moves c hc := h.moves c (List.mem_cons_of_mem _ hc)

/-- Moving the others after the first moves all. -/
theorem Relocated.cons (hb : t a = some b) {t' : α → Option β}
    (hl : Relocated f g l (Relocate.moved f g t a b) t') : Relocated f g (a :: l) t t' where
  moved c hc := by
    rcases List.mem_cons.1 hc with rfl | hc
    · have hnone : ∀ d ∈ l, f d ≠ f c := fun d hd he => by
        have := h.injOn (List.mem_cons_of_mem _ hd) List.mem_cons_self he
        exact (List.nodup_cons.1 h.nodup).1 (this ▸ hd)
      rw [hl.others _ (h.target_not_mem hfree) hnone, Relocate.moved,
        Function.update_of_ne (h.moves c List.mem_cons_self), Function.update_self, hb, Option.map_some]
    · rw [hl.moved c hc, h.moved_eq hfree hc]
  left c hc hno := by
    rcases List.mem_cons.1 hc with rfl | hc
    · rw [hl.others _ (List.nodup_cons.1 h.nodup).1 fun d hd => hno d (List.mem_cons_of_mem _ hd),
        Relocate.moved, Function.update_self]
    · exact hl.left c hc fun d hd => hno d (List.mem_cons_of_mem _ hd)
  others k hk hno := by
    have hka : k ≠ a := fun he => hk (he ▸ List.mem_cons_self)
    rw [hl.others k (fun hmem => hk (List.mem_cons_of_mem _ hmem)) fun d hd =>
      hno d (List.mem_cons_of_mem _ hd), Relocate.moved, Function.update_of_ne hka,
      Function.update_of_ne fun he => hno a List.mem_cons_self he.symm]

end

/-- **Nothing is refused** exactly if no target is where a later entry is. -/
theorem refused_eq_zero_iff : ∀ {l : List α} {t : α → Option β}, Free f l t →
    ((moveAll f g l t).2 = 0 ↔ l.Pairwise fun a b => f a ≠ b)
  | [], t, _ => by simp [moveAll]
  | a :: l, t, h => by
    obtain ⟨b, hb⟩ := Option.isSome_iff_exists.1 (h.stored a List.mem_cons_self)
    rw [moveAll, move, hb, List.pairwise_cons]
    dsimp only
    by_cases hsome : (t (f a)).isSome = true
    · have hmem := (List.mem_cons.1 (h.target a List.mem_cons_self hsome)).resolve_left
        (h.moves a List.mem_cons_self)
      rw [if_pos hsome]
      exact ⟨fun hzero => absurd hzero (Nat.succ_ne_zero _), fun hall => absurd rfl (hall.1 _ hmem)⟩
    · have hfree := Option.not_isSome_iff_eq_none.1 hsome
      rw [if_neg hsome]
      dsimp only
      rw [refused_eq_zero_iff (h.tail hfree)]
      refine ⟨fun htail => ⟨fun c hc he => ?_, htail⟩, And.right⟩
      exact h.target_not_mem hfree (he ▸ hc)

/-- **If nothing is refused, all entries have been moved.** -/
theorem relocated_of_refused : ∀ {l : List α} {t : α → Option β}, Free f l t →
    (moveAll f g l t).2 = 0 → Relocated f g l t (moveAll f g l t).1
  | [], t, _, _ => ⟨fun _ h => absurd h List.not_mem_nil, fun _ h => absurd h List.not_mem_nil,
      fun _ _ _ => rfl⟩
  | a :: l, t, h, hzero => by
    obtain ⟨b, hb⟩ := Option.isSome_iff_exists.1 (h.stored a List.mem_cons_self)
    rw [moveAll, move, hb] at hzero ⊢
    dsimp only at hzero ⊢
    by_cases hsome : (t (f a)).isSome = true
    · rw [if_pos hsome] at hzero
      exact absurd hzero (Nat.succ_ne_zero _)
    · have hfree := Option.not_isSome_iff_eq_none.1 hsome
      rw [if_neg hsome] at hzero ⊢
      exact (relocated_of_refused (h.tail hfree) hzero).cons h hfree hb

omit [DecidableEq α] in
/-- In the order of the entries: every target among them comes before. -/
theorem pairwise_target_iff [LinearOrder α] {l : List α} (hsorted : l.Pairwise (· < ·))
    (hmoves : ∀ a ∈ l, f a ≠ a) :
    (l.Pairwise fun a b => f a ≠ b) ↔ ∀ a ∈ l, f a ∈ l → f a < a := by
  constructor
  · intro h a ha hfa
    rcases lt_trichotomy (f a) a with hlt | heq | hgt
    · exact hlt
    · exact absurd heq (hmoves a ha)
    · have hafter : l.Pairwise fun x y => x < y → f x ≠ y := by
        refine List.Pairwise.imp ?_ h
        exact fun hne _ => hne
      have hbefore : l.Pairwise (flip fun x y => x < y → f x ≠ y) :=
        hsorted.imp fun hlt hgt => absurd hlt hgt.asymm
      have hall := List.Pairwise.forall_of_forall_of_flip
        (fun x _ hlt => absurd hlt (lt_irrefl x)) hafter hbefore ha hfa
      exact absurd rfl (hall hgt)
  · intro h
    refine List.Pairwise.imp_of_mem (fun {a b} ha hb hlt he => ?_) hsorted
    exact absurd (h a ha (he ▸ hb)) (not_lt.2 (he ▸ hlt.le))

end Relocate
