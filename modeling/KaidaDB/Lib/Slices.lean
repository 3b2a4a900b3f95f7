import Mathlib.Data.List.Basic

/-!
# Cutting a list into pieces of a fixed size

`slices n l` are the consecutive pieces of `l` of length `n`, the last one shorter where `n` does
not divide the length. The pieces put together are the list (`flatten_slices`), and cutting may
stop at any multiple of `n` and go on from there (`slices_append`). `wholes n l` are the pieces of
length `n` and `remainder n l` is what they leave (`slices_eq`).
-/

namespace Slices

variable {α : Type}

/-- `slices` with a bound on the number of pieces. -/
def slicesUpTo (n : Nat) : Nat → List α → List (List α)
  | 0, _ => []
  | _ + 1, [] => []
  | k + 1, x :: xs => (x :: xs).take n :: slicesUpTo n k ((x :: xs).drop n)

/-- The consecutive pieces of `l` of length `n`. -/
def slices (n : Nat) (l : List α) : List (List α) := slicesUpTo n l.length l

@[simp] theorem slices_nil (n : Nat) : slices n ([] : List α) = [] := rfl

/-- The bound is never reached once it is the length. -/
theorem slicesUpTo_eq {n : Nat} (hn : 0 < n) (k : Nat) (l : List α) (h : l.length ≤ k) :
    slicesUpTo n k l = slices n l := by
  -- the recursion drops a piece at a time, so every smaller bound is needed
  induction k using Nat.strongRecOn generalizing l with
  | _ k ih =>
    cases l with
    | nil => cases k <;> rfl
    | cons x xs =>
      have hd : ((x :: xs).drop n).length ≤ xs.length := by
        rw [List.length_drop, List.length_cons]; omega
      cases k with
      | zero => simp at h
      | succ k =>
        have hk : xs.length ≤ k := by simpa using h
        rw [slices, List.length_cons, slicesUpTo, slicesUpTo,
          ih k (by omega) _ (Nat.le_trans hd hk), ih xs.length (by omega) _ hd]

theorem slices_cons {n : Nat} (hn : 0 < n) {l : List α} (hl : l ≠ []) :
    slices n l = l.take n :: slices n (l.drop n) := by
  cases l with
  | nil => exact absurd rfl hl
  | cons x xs =>
    have hd : ((x :: xs).drop n).length ≤ xs.length := by simp; omega
    rw [slices, List.length_cons, slicesUpTo, slicesUpTo_eq hn _ _ hd]

/-- A piece of at most `n` elements is cut into itself. -/
theorem slices_short {n : Nat} {l : List α} (hne : l ≠ []) (hl : l.length ≤ n) :
    slices n l = [l] := by
  have hn : 0 < n := Nat.lt_of_lt_of_le (List.length_pos_iff.2 hne) hl
  rw [slices_cons hn hne, List.take_of_length_le hl, List.drop_of_length_le hl, slices_nil]

/-- The first `n` elements are a piece. -/
theorem slices_append_left {n : Nat} (hn : 0 < n) {l m : List α} (hl : l.length = n) :
    slices n (l ++ m) = l :: slices n m := by
  have hne : l ++ m ≠ [] := by
    intro h
    rw [(List.append_eq_nil_iff.1 h).1] at hl
    exact absurd hl (by simp; omega)
  rw [slices_cons hn hne, List.take_left' hl, List.drop_left' hl]

/-- Cutting goes on after a multiple of `n`. -/
theorem slices_append {n : Nat} (hn : 0 < n) (m : List α) :
    ∀ {l : List α}, n ∣ l.length → slices n (l ++ m) = slices n l ++ slices n m := by
  intro l hl
  obtain ⟨k, hk⟩ := hl
  induction k generalizing l with
  | zero =>
    have : l = [] := List.eq_nil_of_length_eq_zero (by simpa using hk)
    subst this; rfl
  | succ k ih =>
    have hle : n ≤ l.length := by rw [hk, Nat.mul_succ]; omega
    have htake : (l.take n).length = n := List.length_take_of_le hle
    have hdrop : (l.drop n).length = n * k := by
      rw [List.length_drop, hk, Nat.mul_succ]; omega
    rw [← List.take_append_drop n l, List.append_assoc, slices_append_left hn htake,
      slices_append_left hn htake, ih hdrop, List.cons_append]

/-- The pieces put together are the list. -/
theorem flatten_slices {n : Nat} (hn : 0 < n) (l : List α) : (slices n l).flatten = l := by
  induction hk : l.length using Nat.strongRecOn generalizing l with
  | ind k ih =>
    cases l with
    | nil => rfl
    | cons x xs =>
      rw [slices_cons hn (by simp), List.flatten_cons,
        ih _ (by rw [← hk, List.length_drop]; simp; omega) _ rfl, List.take_append_drop]

/-- Pieces of the same length. -/
theorem length_flatten_const {n : Nat} {ps : List (List α)} (h : ∀ p ∈ ps, p.length = n) :
    ps.flatten.length = ps.length * n := by
  induction ps with
  | nil => simp
  | cons p ps ih =>
    obtain ⟨hp, hps⟩ := List.forall_mem_cons.1 h
    rw [List.flatten_cons, List.length_append, hp, ih hps, List.length_cons, Nat.succ_mul, Nat.add_comm]

/-- Leaving out pieces. -/
theorem drop_slices {n : Nat} (hn : 0 < n) : ∀ (i : Nat) (l : List α),
    (slices n l).drop i = slices n (l.drop (i * n))
  | 0, l => by simp
  | i + 1, [] => by simp
  | i + 1, x :: xs => by
    rw [slices_cons hn (by simp), List.drop_succ_cons, drop_slices hn i, List.drop_drop,
      Nat.succ_mul, Nat.add_comm n]

/-- There are pieces as long as there are elements. -/
theorem lt_length_slices {n : Nat} (hn : 0 < n) (i : Nat) (l : List α) :
    i < (slices n l).length ↔ i * n < l.length := by
  have hnil : slices n (l.drop (i * n)) = [] ↔ l.drop (i * n) = [] := by
    refine ⟨fun h => ?_, fun h => by rw [h, slices_nil]⟩
    rw [← flatten_slices hn (l.drop (i * n)), h, List.flatten_nil]
  rw [← drop_slices hn, List.drop_eq_nil_iff, List.drop_eq_nil_iff] at hnil
  omega

theorem getElem?_slices {n : Nat} (hn : 0 < n) {i : Nat} {l p : List α} (h : (slices n l)[i]? = some p) :
    i * n < l.length ∧ p = (l.drop (i * n)).take n := by
  have hi : i * n < l.length := (lt_length_slices hn i l).1 (List.getElem?_eq_some_iff.1 h).1
  refine ⟨hi, ?_⟩
  rw [← List.head?_drop, drop_slices hn, slices_cons hn (by rw [ne_eq, List.drop_eq_nil_iff]; omega)] at h
  exact (Option.some.inj h).symm

/-- No piece is empty or too long, and all but the last are full. -/
theorem length_slices {n : Nat} (hn : 0 < n) (l : List α) :
    (∀ p ∈ slices n l, 1 ≤ p.length ∧ p.length ≤ n) ∧ ∀ p ∈ (slices n l).dropLast, p.length = n := by
  induction hk : l.length using Nat.strongRecOn generalizing l with
  | ind k ih =>
    cases l with
    | nil => simp
    | cons x xs =>
      obtain ⟨ih1, ih2⟩ := ih _ (by rw [← hk, List.length_drop]; simp; omega) ((x :: xs).drop n) rfl
      have htake := List.length_take (i := n) (l := x :: xs)
      rw [List.length_cons] at htake
      rw [slices_cons hn (by simp)]
      refine ⟨List.forall_mem_cons.2 ⟨by omega, ih1⟩, ?_⟩
      by_cases hrest : (x :: xs).drop n = []
      · rw [hrest, slices_nil]
        simp
      · have hfull : n ≤ xs.length + 1 := by
          rw [List.drop_eq_nil_iff, List.length_cons] at hrest
          omega
        rw [slices_cons hn hrest] at ih2 ⊢
        rw [List.dropLast_cons_cons]
        exact List.forall_mem_cons.2 ⟨by omega, ih2⟩

/-! ## A shorter first piece -/

/-- The pieces of a list that begins inside of a piece, of which `first` elements are left. -/
def slicesAfter (first n : Nat) : List α → List (List α)
  | [] => []
  | x :: xs => (x :: xs).take first :: slices n ((x :: xs).drop first)

@[simp] theorem slicesAfter_nil (first n : Nat) : slicesAfter first n ([] : List α) = [] := rfl

theorem slicesAfter_cons (first n : Nat) {l : List α} (hl : l ≠ []) :
    slicesAfter first n l = l.take first :: slices n (l.drop first) := by
  cases l with
  | nil => exact absurd rfl hl
  | cons => rfl

theorem slicesAfter_self {n : Nat} (hn : 0 < n) (l : List α) : slicesAfter n n l = slices n l := by
  by_cases hl : l = []
  · rw [hl, slicesAfter_nil, slices_nil]
  · rw [slicesAfter_cons n n hl, slices_cons hn hl]

theorem flatten_slicesAfter (first : Nat) {n : Nat} (hn : 0 < n) (l : List α) :
    (slicesAfter first n l).flatten = l := by
  by_cases hl : l = []
  · rw [hl, slicesAfter_nil, List.flatten_nil]
  · rw [slicesAfter_cons first n hl, List.flatten_cons, flatten_slices hn, List.take_append_drop]

theorem length_slicesAfter {first n : Nat} (hfirst : 0 < first) (hle : first ≤ n) (l : List α) :
    ∀ p ∈ slicesAfter first n l, 1 ≤ p.length ∧ p.length ≤ n := by
  by_cases hl : l = []
  · simp [hl]
  · have hpos := List.length_pos_iff.2 hl
    have htake := List.length_take (i := first) (l := l)
    rw [slicesAfter_cons first n hl]
    exact List.forall_mem_cons.2 ⟨by omega, (length_slices (by omega) _).1⟩

/-! ## Pieces of full length -/

/-- The pieces that have length `n`. -/
def wholes (n : Nat) (l : List α) : List (List α) := (slices n l).take (l.length / n)

/-- What follows the last piece of length `n`. -/
def remainder (n : Nat) (l : List α) : List α := l.drop (l.length / n * n)

theorem wholes_short {n : Nat} {l : List α} (h : l.length < n) : wholes n l = [] := by
  rw [wholes, Nat.div_eq_of_lt h, List.take_zero]

theorem remainder_short {n : Nat} {l : List α} (h : l.length < n) : remainder n l = l := by
  rw [remainder, Nat.div_eq_of_lt h, Nat.zero_mul, List.drop_zero]

section
variable {n : Nat} (hn : 0 < n) {l : List α}
include hn

theorem div_length_drop (h : n ≤ l.length) : l.length / n = (l.drop n).length / n + 1 := by
  rw [List.length_drop, Nat.div_eq_sub_div hn h]

theorem wholes_step (h : n ≤ l.length) :
    wholes n l = l.take n :: wholes n (l.drop n) := by
  have hne : l ≠ [] := fun h0 => by
    subst h0
    simp at h
    omega
  rw [wholes, slices_cons hn hne, div_length_drop hn h, List.take_succ_cons, wholes]

theorem remainder_step (h : n ≤ l.length) : remainder n l = remainder n (l.drop n) := by
  rw [remainder, remainder, List.drop_drop, div_length_drop hn h, Nat.succ_mul, Nat.add_comm]

variable (l)

theorem slices_eq : slices n l = wholes n l ++ slices n (remainder n l) := by
  rw [wholes, remainder, ← drop_slices hn, List.take_append_drop]

theorem length_remainder : (remainder n l).length < n := by
  rw [remainder, List.length_drop, Nat.mul_comm, ← Nat.mod_eq_sub_mul_div]
  exact Nat.mod_lt _ hn

/-- The pieces and what they leave are the list. -/
theorem flatten_wholes : (wholes n l).flatten ++ remainder n l = l := by
  rw [← flatten_slices hn (remainder n l), ← List.flatten_append, ← slices_eq hn, flatten_slices hn]

theorem length_wholes {p : List α} (hp : p ∈ wholes n l) : p.length = n := by
  induction hk : l.length using Nat.strongRecOn generalizing l with
  | ind k ih =>
    by_cases h : n ≤ l.length
    · rw [wholes_step hn h, List.mem_cons] at hp
      rcases hp with rfl | hp
      · exact List.length_take_of_le h
      · exact ih _ (by rw [List.length_drop]; omega) _ hp rfl
    · rw [wholes_short (by omega)] at hp
      cases hp

theorem wholes_infix {p : List α} (hp : p ∈ wholes n l) : p <:+: l := by
  have hmem : p ∈ slices n l := List.mem_of_mem_take hp
  obtain ⟨as, bs, hsplit⟩ := List.append_of_mem hmem
  refine ⟨as.flatten, bs.flatten, ?_⟩
  rw [← flatten_slices hn l, hsplit, List.flatten_append, List.flatten_cons, List.append_assoc]

/-- More elements, more pieces. -/
theorem wholes_append (m : List α) : wholes n l <+: wholes n (l ++ m) := by
  induction hk : l.length using Nat.strongRecOn generalizing l with
  | ind k ih =>
    by_cases h : n ≤ l.length
    · have hlen : n ≤ (l ++ m).length := by rw [List.length_append]; omega
      rw [wholes_step hn h, wholes_step hn hlen, List.take_append_of_le_length h,
        List.drop_append_of_le_length h]
      exact (List.prefix_cons_inj _).2 (ih _ (by rw [List.length_drop]; omega) _ rfl)
    · rw [wholes_short (by omega)]
      exact List.nil_prefix

end

end Slices
