import Mathlib.Data.List.Infix

/-!
# Words with a separator

A word is `Closed` if it is empty or ends with the separator. Every word is a closed one and a rest
without the separator (`exists_split`), in exactly one way (`split_unique`), since a closed part of the
word reaches no further than the last separator (`Closed.prefix_of`).
-/

namespace Separated

variable {α : Type} {sep : α} {p q l name name' : List α}

/-- Nothing follows the last separator. -/
def Closed (sep : α) (p : List α) : Prop := p = [] ∨ ∃ q, p = q ++ [sep]

theorem closed_nil : Closed sep [] := .inl rfl

theorem closed_append (q : List α) : Closed sep (q ++ [sep]) := .inr ⟨q, rfl⟩

theorem exists_split [DecidableEq α] (sep : α) (l : List α) :
    ∃ p name, l = p ++ name ∧ Closed sep p ∧ sep ∉ name := by
  induction l using List.reverseRecOn with
  | nil => exact ⟨[], [], rfl, closed_nil, List.not_mem_nil⟩
  | append_singleton l c ih =>
    by_cases hc : c = sep
    · subst hc
      exact ⟨l ++ [c], [], (List.append_nil _).symm, closed_append l, List.not_mem_nil⟩
    · obtain ⟨p, name, rfl, hp, hname⟩ := ih
      refine ⟨p, name ++ [c], List.append_assoc _ _ _, hp, fun h => ?_⟩
      rcases List.mem_append.1 h with h | h
      · exact hname h
      · exact hc (List.mem_singleton.1 h).symm

/-- A closed beginning of a word does not reach into a rest without the separator. -/
theorem Closed.prefix_of (hp : Closed sep p) (h : p <+: q ++ name) (hname : sep ∉ name) : p <+: q := by
  rcases hp with rfl | ⟨p, rfl⟩
  · exact List.nil_prefix
  obtain ⟨r, hr⟩ := h
  rcases List.append_eq_append_iff.1 hr with ⟨as, hq, -⟩ | ⟨bs, hp, hn⟩
  · exact ⟨as, hq.symm⟩
  · -- the last element of the closed part is the separator, and would be in the rest
    cases bs using List.reverseRecOn with
    | nil => exact ⟨[], by rw [List.append_nil, hp, List.append_nil]⟩
    | append_singleton bs c =>
      rw [← List.append_assoc] at hp
      obtain ⟨-, hc⟩ := List.append_inj' hp rfl
      obtain rfl := List.singleton_inj.1 hc
      exact absurd (hn ▸ by simp) hname

theorem split_unique (hp : Closed sep p) (hq : Closed sep q) (hname : sep ∉ name) (hname' : sep ∉ name')
    (h : p ++ name = q ++ name') : p = q := by
  have hpq : p <+: q := hp.prefix_of (h ▸ List.prefix_append p name) hname'
  have hqp : q <+: p := hq.prefix_of (h ▸ List.prefix_append q name') hname
  exact hpq.eq_of_length (le_antisymm hpq.length_le hqp.length_le)

/-- A closed word that is not empty is a smaller one and a component. -/
theorem Closed.exists_parent [DecidableEq α] (hp : Closed sep p) (hne : p ≠ []) :
    ∃ q name, p = q ++ (name ++ [sep]) ∧ Closed sep q ∧ sep ∉ name := by
  rcases hp with rfl | ⟨r, rfl⟩
  · exact absurd rfl hne
  · obtain ⟨q, name, rfl, hq, hname⟩ := exists_split sep r
    exact ⟨q, name, List.append_assoc _ _ _, hq, hname⟩

/-- The word up to the first separator. -/
theorem takeWhile_append [DecidableEq α] {a r : List α} (h : sep ∉ a) :
    (a ++ sep :: r).takeWhile (· ≠ sep) = a := by
  rw [List.takeWhile_append_of_pos fun c hc => by simpa using ne_of_mem_of_not_mem hc h]
  simp

/-- A part of a word without the separator is on one side of it. -/
theorem infix_append_iff {a b w : List α} (hw : sep ∉ w) :
    w <:+: a ++ sep :: b ↔ w <:+: a ∨ w <:+: b := by
  constructor
  · rintro ⟨x, y, h⟩
    rw [List.append_assoc] at h
    rcases List.append_eq_append_iff.1 h with ⟨as, ha, hrest⟩ | ⟨bs, hx, hrest⟩
    · -- it starts before the separator
      rcases List.append_eq_append_iff.1 hrest with ⟨cs, has, -⟩ | ⟨cs, hwcs, hy⟩
      · exact .inl ⟨x, cs, by rw [ha, has, List.append_assoc]⟩
      · cases cs with
        | nil => exact .inl ⟨x, [], by rw [ha, hwcs, List.append_nil, List.append_nil]⟩
        | cons c cs =>
          obtain ⟨rfl, -⟩ := List.cons.inj hy
          exact absurd (hwcs ▸ by simp) hw
    · cases bs with
      | nil =>
        cases w with
        | nil => exact .inl List.nil_infix
        | cons c w =>
          obtain ⟨rfl, -⟩ := List.cons.inj hrest
          exact absurd List.mem_cons_self hw
      | cons c bs =>
        rw [List.cons_append] at hrest
        obtain ⟨-, hb⟩ := List.cons.inj hrest
        exact .inr ⟨bs, y, by rw [hb, List.append_assoc]⟩
  · rintro (h | h)
    · exact h.trans (List.prefix_append _ _).isInfix
    · exact h.trans ((List.suffix_cons _ _).trans (List.suffix_append _ _)).isInfix

end Separated
