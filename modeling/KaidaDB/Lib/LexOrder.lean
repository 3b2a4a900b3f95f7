import Mathlib.Data.List.Lex
import Mathlib.Order.Lattice

/-!
# Lexicographic order and common beginnings

The lists that begin with a given one lie next to each other in lexicographic order
(`not_append_lt`, `exists_append_of_between`). Words without the separator `sep` are ordered by
`word ++ [sep]` in another way than by themselves: a word stands behind those that continue it with
elements before `sep`. The second part has the laws of that order.
-/

namespace LexOrder

variable {α : Type} [LinearOrder α]

theorem not_append_lt : ∀ (p r : List α), ¬ p ++ r < p
  | [], r => List.not_lt_nil r
  | a :: p, r => by
    rw [List.cons_append, List.cons_lt_cons_iff]
    rintro (h | ⟨-, h⟩)
    · exact lt_irrefl a h
    · exact not_append_lt p r h

/-- Between `p` and a list that begins with `p` there are only such lists. -/
theorem exists_append_of_between : ∀ {p k r : List α}, ¬ k < p → ¬ p ++ r < k → ∃ r', k = p ++ r'
  | [], k, _, _, _ => ⟨k, rfl⟩
  | a :: p, [], _, h, _ => absurd (List.nil_lt_cons a p) h
  | a :: p, b :: k, r, h1, h2 => by
    rw [List.cons_lt_cons_iff] at h1
    rw [List.cons_append, List.cons_lt_cons_iff] at h2
    have hab : a = b := le_antisymm (not_lt.1 fun h => h1 (.inl h)) (not_lt.1 fun h => h2 (.inl h))
    subst hab
    obtain ⟨r', rfl⟩ := exists_append_of_between (fun h => h1 (.inr ⟨rfl, h⟩))
      fun h => h2 (.inr ⟨rfl, h⟩)
    exact ⟨r', rfl⟩

theorem append_lt_append_iff : ∀ (p : List α) {a b : List α}, p ++ a < p ++ b ↔ a < b
  | [], _, _ => Iff.rfl
  | x :: p, a, b => by
    rw [List.cons_append, List.cons_append, List.cons_lt_cons_iff, append_lt_append_iff p]
    simp

/-! ## Words before a separator -/

variable {sep next : α}

/-- What follows the separators does not matter for the order of different words. -/
theorem sep_lt_of_sep_lt : ∀ {a b : List α} (r r' : List α), sep ∉ a → sep ∉ b →
    a ++ [sep] < b ++ [sep] → a ++ sep :: r < b ++ sep :: r'
  | [], [], _, _, _, _, h => absurd h (lt_irrefl _)
  | [], y :: b, r, r', _, hb, h => by
    simp only [List.nil_append, List.cons_append, List.cons_lt_cons_iff] at h ⊢
    exact .inl (h.resolve_right fun h => hb (h.1 ▸ List.mem_cons_self))
  | x :: a, [], r, r', ha, _, h => by
    simp only [List.nil_append, List.cons_append, List.cons_lt_cons_iff] at h ⊢
    exact .inl (h.resolve_right fun h => ha (h.1 ▸ List.mem_cons_self))
  | x :: a, y :: b, r, r', ha, hb, h => by
    simp only [List.cons_append, List.cons_lt_cons_iff] at h ⊢
    refine h.imp_right fun h => ⟨h.1, ?_⟩
    exact sep_lt_of_sep_lt r r' (fun h => ha (List.mem_cons_of_mem _ h))
      (fun h => hb (List.mem_cons_of_mem _ h)) h.2

/-- The element next to the separator lies behind all lists that begin with `b ++ [sep]`, and before
those of the words behind `b`. -/
theorem next_lt_iff (hnext : ∀ x, sep < x ↔ next ≤ x) : ∀ {b t : List α} (r : List α), sep ∉ b →
    sep ∉ t → (b ++ [next] < t ++ sep :: r ↔ b ++ [sep] < t ++ [sep])
  | [], [], r, _, _ => by
    have hlt := (hnext next).2 (le_refl _)
    simp only [List.nil_append, List.cons_lt_cons_iff, lt_irrefl, ne_of_gt hlt, not_lt_of_gt hlt,
      false_and, or_false]
  | [], y :: t, r, _, ht => by
    have hy : sep ≠ y := fun h => ht (h ▸ List.mem_cons_self)
    simp only [List.nil_append, List.cons_append, List.cons_lt_cons_iff, hy, hnext y, false_and,
      or_false, le_iff_lt_or_eq]
    refine or_congr_right (and_iff_left ?_)
    cases t <;> simp
  | x :: b, [], r, hb, _ => by
    have hx : x ≠ sep := fun h => hb (h ▸ List.mem_cons_self)
    simp only [List.nil_append, List.cons_append, List.cons_lt_cons_iff, hx, false_and]
  | x :: b, y :: t, r, hb, ht => by
    simp only [List.cons_append, List.cons_lt_cons_iff]
    rw [next_lt_iff hnext r (fun h => hb (List.mem_cons_of_mem _ h))
      fun h => ht (List.mem_cons_of_mem _ h)]

/-- A word that stands behind a greater one stands behind those in between as well. -/
theorem sep_lt_of_between : ∀ {a b c : List α}, a < b → b < c →
    c ++ [sep] < a ++ [sep] → b ++ [sep] < a ++ [sep]
  | [], [], _, h, _, _ => absurd h (lt_irrefl _)
  | _ :: _, [], _, h, _, _ => absurd h (List.not_lt_nil _)
  | _, _ :: _, [], _, h, _ => absurd h (List.not_lt_nil _)
  | [], y :: b, z :: c, _, hbc, h => by
    simp only [List.nil_append, List.cons_append, List.cons_lt_cons_iff, List.not_lt_nil, and_false,
      or_false] at hbc h ⊢
    rcases hbc with hyz | ⟨rfl, -⟩
    · exact lt_trans hyz h
    · exact h
  | x :: a, y :: b, z :: c, hab, hbc, h => by
    simp only [List.cons_append, List.cons_lt_cons_iff] at hab hbc h ⊢
    have hxy : x ≤ y := hab.elim le_of_lt fun h => le_of_eq h.1
    have hyz : y ≤ z := hbc.elim le_of_lt fun h => le_of_eq h.1
    have hzx : z ≤ x := h.elim le_of_lt fun h => le_of_eq h.1
    obtain rfl : x = y := le_antisymm hxy (le_trans hyz hzx)
    obtain rfl : x = z := le_antisymm hyz hzx
    simp only [lt_irrefl, false_or, true_and] at hab hbc h ⊢
    exact sep_lt_of_between hab hbc h

end LexOrder
