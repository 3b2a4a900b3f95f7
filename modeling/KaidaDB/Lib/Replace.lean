import Mathlib.Data.List.Infix

/-!
# Finding and replacing pieces of a list

For a non-empty `p`, `rfind? p l` is where the last occurrence of `p` in `l` starts
(`rfind?_eq_some`, `rfind?_append`), and `replaceAll p r l` has `r` in the place of the occurrences of
`p`, taken from the left and without overlaps. An element that is not in `p` separates: on both sides of
it the replacing is on its own (`replaceAll_append_cons`). Where what replaces starts otherwise than
`p`, a replaced occurrence shows (`not_infix_of_replaceAll`).
-/

namespace Replace

variable {α : Type}

/-! ## Occurrences and separators -/

section
variable {p a b : List α} {c : α}

theorem prefix_append_cons (hc : c ∉ p) : p <+: a ++ c :: b ↔ p <+: a := by
  constructor
  · intro h
    by_cases hle : p.length ≤ a.length
    · exact List.prefix_of_prefix_length_le h (List.prefix_append a _) hle
    · -- a longer `p` has the separator
      have hsep : a ++ [c] <+: a ++ c :: b := ⟨b, by simp⟩
      have hin := List.prefix_of_prefix_length_le hsep h (by simp; omega)
      exact absurd (hin.subset (by simp)) hc
  · intro h
    exact h.trans (List.prefix_append a _)

/-- An occurrence is on one side of the separator. -/
theorem infix_append_cons (hp : p ≠ []) (hc : c ∉ p) : p <:+: a ++ c :: b ↔ p <:+: a ∨ p <:+: b := by
  induction a with
  | nil =>
    have hno : ¬ p <+: c :: b := fun h => hp (List.prefix_nil.1 ((prefix_append_cons (a := []) hc).1 h))
    rw [List.nil_append, List.infix_cons_iff, List.infix_nil]
    simp [hno, hp]
  | cons x a ih =>
    have hpre : p <+: x :: (a ++ c :: b) ↔ p <+: x :: a := prefix_append_cons (a := x :: a) hc
    rw [List.cons_append, List.infix_cons_iff, List.infix_cons_iff, ih, hpre, or_assoc]

/-- An occurrence starts at its first element. -/
theorem cons_infix_append {q : List α} (hc : c ∉ a) (h : c :: q <:+: a ++ b) : c :: q <:+: b := by
  induction a with
  | nil => exact h
  | cons x a ih =>
    rw [List.mem_cons, not_or] at hc
    rw [List.cons_append, List.infix_cons_iff] at h
    rcases h with h | h
    · exact absurd (List.cons_prefix_cons.1 h).1 hc.1
    · exact ih hc.2 h

end

/-! ## Searching -/

variable [DecidableEq α]

/-- Where the last occurrence of `p` starts. -/
def rfind? (p : List α) : List α → Option Nat
  | [] => none
  | c :: l =>
    match rfind? p l with
    | some i => some (i + 1)
    | none => if p.isPrefixOf (c :: l) then some 0 else none

/-- `replaceAll` after `skip` more elements of an occurrence. -/
def replaceFrom (p r : List α) : Nat → List α → List α
  | _, [] => []
  | skip + 1, _ :: l => replaceFrom p r skip l
  | 0, c :: l =>
    if p.isPrefixOf (c :: l) then r ++ replaceFrom p r (p.length - 1) l
    else c :: replaceFrom p r 0 l

/-- `r` for each occurrence of `p`. -/
def replaceAll (p r l : List α) : List α := replaceFrom p r 0 l

section
variable {p l a b : List α}

theorem rfind?_eq_none (hp : p ≠ []) : rfind? p l = none ↔ ¬ p <:+: l := by
  induction l with
  | nil => simp [rfind?, hp]
  | cons c l ih =>
    rw [List.infix_cons_iff, rfind?]
    cases hrest : rfind? p l with
    | some i => simp [hrest] at ih ⊢; simp [ih]
    | none =>
      have hno := ih.1 hrest
      simp [hno]

/-- Nothing of `p` starts behind the place found. -/
theorem rfind?_last (hp : p ≠ []) {i : Nat} (h : rfind? p l = some i) :
    ∃ a b, l = a ++ (p ++ b) ∧ a.length = i ∧ ¬ p <:+: (p ++ b).tail := by
  induction l generalizing i with
  | nil => cases h
  | cons c l ih =>
    rw [rfind?] at h
    cases hrest : rfind? p l with
    | some j =>
      rw [hrest] at h
      obtain ⟨a, b, rfl, hlen, hb⟩ := ih hrest
      cases h
      exact ⟨c :: a, b, rfl, by rw [List.length_cons, hlen], hb⟩
    | none =>
      rw [hrest] at h
      dsimp only at h
      split_ifs at h with hpre
      cases h
      obtain ⟨b, hl⟩ := List.isPrefixOf_iff_prefix.1 hpre
      refine ⟨[], b, hl.symm, rfl, ?_⟩
      rw [hl, List.tail_cons]
      exact (rfind?_eq_none hp).1 hrest

/-- Nothing of `p` occurs behind the place found. -/
theorem rfind?_eq_some (hp : p ≠ []) {i : Nat} (h : rfind? p l = some i) :
    ∃ a b, l = a ++ (p ++ b) ∧ a.length = i ∧ ¬ p <:+: b := by
  obtain ⟨a, b, hl, hlen, hb⟩ := rfind?_last hp h
  refine ⟨a, b, hl, hlen, fun hin => hb ?_⟩
  obtain ⟨d, q, rfl⟩ := List.exists_cons_of_ne_nil hp
  exact hin.trans (List.suffix_append q b).isInfix

/-- The occurrence before which nothing more is found. -/
theorem rfind?_append {c : α} {q : List α} (h : ¬ c :: q <:+: q ++ b) :
    rfind? (c :: q) (a ++ (c :: q ++ b)) = some a.length := by
  induction a with
  | nil =>
    rw [List.nil_append, List.cons_append, rfind?, (rfind?_eq_none (by simp)).2 h]
    have hpre : (c :: q).isPrefixOf (c :: (q ++ b)) = true :=
      List.isPrefixOf_iff_prefix.2 ⟨b, rfl⟩
    simp only [hpre, if_true, List.length_nil]
  | cons x a ih => rw [List.cons_append, rfind?, ih, List.length_cons]

end

/-! ## Replacing -/

section
variable {p r l a b : List α} {c : α}

theorem replaceFrom_skip (skip : Nat) (l : List α) :
    replaceFrom p r skip l = replaceAll p r (l.drop skip) := by
  induction skip generalizing l with
  | zero => rfl
  | succ skip ih =>
    cases l with
    | nil => simp [replaceFrom, replaceAll]
    | cons c l => rw [replaceFrom, ih, List.drop_succ_cons]

theorem replaceAll_cons (h : ¬ p <+: c :: l) : replaceAll p r (c :: l) = c :: replaceAll p r l := by
  rw [replaceAll, replaceFrom, if_neg (by rwa [List.isPrefixOf_iff_prefix]), replaceAll]

theorem replaceAll_append (hp : p ≠ []) : replaceAll p r (p ++ b) = r ++ replaceAll p r b := by
  obtain ⟨c, q, rfl⟩ := List.exists_cons_of_ne_nil hp
  have hpre : (c :: q).isPrefixOf (c :: (q ++ b)) = true := List.isPrefixOf_iff_prefix.2 ⟨b, rfl⟩
  rw [replaceAll, List.cons_append, replaceFrom, if_pos hpre, replaceFrom_skip, List.length_cons,
    Nat.add_sub_cancel, List.drop_left]

theorem replaceAll_eq_self (h : ¬ p <:+: l) : replaceAll p r l = l := by
  induction l with
  | nil => rfl
  | cons c l ih =>
    rw [List.infix_cons_iff, not_or] at h
    rw [replaceAll_cons h.1, ih h.2]

/-- Before the first occurrence nothing changes. -/
theorem replaceAll_first (hp : p ≠ []) (r : List α) (h : p <:+: l) :
    ∃ a b, l = a ++ p ++ b ∧ replaceAll p r l = a ++ r ++ replaceAll p r b := by
  induction l with
  | nil => exact absurd (List.infix_nil.1 h) hp
  | cons c l ih =>
    by_cases hpre : p <+: c :: l
    · obtain ⟨b, hb⟩ := hpre
      exact ⟨[], b, by rw [List.nil_append, hb], by rw [← hb, replaceAll_append hp, List.nil_append]⟩
    · obtain ⟨a, b, hl, hr⟩ := ih ((List.infix_cons_iff.1 h).resolve_left hpre)
      refine ⟨c :: a, b, by rw [hl]; simp, ?_⟩
      rw [replaceAll_cons hpre, hr]
      simp

theorem mem_replaceAll {x : α} (h : x ∈ replaceAll p r l) : x ∈ r ∨ x ∈ l := by
  induction hn : l.length using Nat.strongRecOn generalizing l with
  | ind n ih =>
    cases l with
    | nil => cases h
    | cons c l =>
      by_cases hpre : p.isPrefixOf (c :: l) = true
      · rw [replaceAll, replaceFrom, if_pos hpre, replaceFrom_skip, List.mem_append] at h
        rcases h with h | h
        · exact .inl h
        · refine (ih _ ?_ h rfl).imp_right fun hx => .tail _ (List.mem_of_mem_drop hx)
          rw [← hn, List.length_drop, List.length_cons]
          omega
      · rw [replaceAll_cons (by rwa [List.isPrefixOf_iff_prefix] at hpre), List.mem_cons] at h
        rcases h with rfl | h
        · exact .inr (.head _)
        · exact (ih _ (by rw [← hn, List.length_cons]; omega) h rfl).imp_right (.tail _)

/-- The two sides of a separator are replaced on their own. -/
theorem replaceAll_append_cons (hp : p ≠ []) (hc : c ∉ p) :
    replaceAll p r (a ++ c :: b) = replaceAll p r a ++ c :: replaceAll p r b := by
  induction hn : a.length using Nat.strongRecOn generalizing a with
  | ind n ih =>
    by_cases hpre : p <+: a
    · -- an occurrence is taken off the left side
      obtain ⟨a', rfl⟩ := hpre
      have hlen : a'.length < n := by
        have := List.length_pos_iff.2 hp
        rw [← hn, List.length_append]
        omega
      rw [List.append_assoc, replaceAll_append hp, replaceAll_append hp, ih _ hlen rfl,
        List.append_assoc]
    · have hno : ¬ p <+: a ++ c :: b := fun h => hpre ((prefix_append_cons hc).1 h)
      cases a with
      | nil => rw [List.nil_append, replaceAll_cons hno]; rfl
      | cons x a =>
        rw [List.cons_append] at hno ⊢
        rw [replaceAll_cons hno, replaceAll_cons hpre, List.cons_append,
          ih _ (by rw [← hn, List.length_cons]; omega) rfl]

/-- What replaces shows where it starts otherwise. -/
theorem not_infix_of_replaceAll {d : α} {q x y : List α} (hd : d ≠ c)
    (h : replaceAll (c :: q) (d :: r) l ++ x = l ++ y) : ¬ c :: q <:+: l := by
  intro hin
  obtain ⟨a, b, hl, hr⟩ := replaceAll_first (by simp) (d :: r) hin
  rw [hr, hl] at h
  simp only [List.append_assoc, List.append_cancel_left_eq, List.cons_append, List.cons.injEq] at h
  exact hd h.1

end

end Replace
