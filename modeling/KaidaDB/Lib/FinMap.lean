import Mathlib.Algebra.BigOperators.Group.List.Basic
import Mathlib.Algebra.GroupWithZero.Nat
import Mathlib.Algebra.Order.Monoid.Defs

/-!
# Finite ordered maps and totals over them

Lookups in `Std.ExtTreeMap` after an insertion or a removal, stated with equality of keys, and
`total f t`, the sum of a weight `f` over the values of `t`: an insertion or a removal changes it
at one key only (`total_insert`, `total_erase`), and values that each claim a key of their own weigh
at most the total (`total_le_total`).
-/

namespace FinMap

open Std

variable {α β : Type} {cmp : α → α → Ordering} [TransCmp cmp] [LawfulEqCmp cmp]

/-! ## Lookups -/

@[simp] theorem get_insert [DecidableEq α] (t : ExtTreeMap α β cmp) (k a : α) (v : β) :
    (t.insert k v)[a]? = if k = a then some v else t[a]? := by
  simp [ExtTreeMap.getElem?_insert, LawfulEqCmp.compare_eq_iff_eq]

@[simp] theorem get_erase [DecidableEq α] (t : ExtTreeMap α β cmp) (k a : α) :
    (t.erase k)[a]? = if k = a then none else t[a]? := by
  simp [ExtTreeMap.getElem?_erase, LawfulEqCmp.compare_eq_iff_eq]

omit [LawfulEqCmp cmp] in
@[simp] theorem contains_iff (t : ExtTreeMap α β cmp) (k : α) :
    t.contains k = true ↔ (t[k]?).isSome := by
  rw [ExtTreeMap.isSome_getElem?_eq_contains]

/-- Two maps with the same lookups are the same map. -/
theorem ext_get {t u : ExtTreeMap α β cmp} (h : ∀ k : α, t[k]? = u[k]?) : t = u :=
  ExtTreeMap.ext_getElem? h

/-- Putting back what is already there changes nothing. -/
theorem insert_self {t : ExtTreeMap α β cmp} {k : α} {v : β} (h : t[k]? = some v) :
    t.insert k v = t := by
  classical
  refine ext_get fun a => ?_
  rw [get_insert]
  split
  · rename_i hk; rw [← hk, h]
  · rfl

theorem erase_of_none {t : ExtTreeMap α β cmp} {k : α} (h : t[k]? = none) : t.erase k = t := by
  classical
  refine ext_get fun a => ?_
  rw [get_erase]
  split
  · rename_i hk; rw [← hk, h]
  · rfl

/-! ## Insertions and removals at different keys commute -/

theorem insert_comm {t : ExtTreeMap α β cmp} {k l : α} (h : k ≠ l) (v w : β) :
    (t.insert k v).insert l w = (t.insert l w).insert k v := by
  classical
  refine ext_get fun a => ?_
  simp only [get_insert]
  split_ifs <;> simp_all

theorem erase_insert_comm {t : ExtTreeMap α β cmp} {k l : α} (h : k ≠ l) (v : β) :
    (t.insert k v).erase l = (t.erase l).insert k v := by
  classical
  refine ext_get fun a => ?_
  simp only [get_insert, get_erase]
  split_ifs <;> simp_all

theorem erase_comm {t : ExtTreeMap α β cmp} (k l : α) :
    (t.erase k).erase l = (t.erase l).erase k := by
  classical
  refine ext_get fun a => ?_
  simp only [get_erase]
  split_ifs <;> simp_all

/-! ## The entries as a list -/

theorem nodup_toList (t : ExtTreeMap α β cmp) : t.toList.Nodup :=
  (ExtTreeMap.distinct_keys_toList (t := t)).imp fun h he =>
    h (LawfulEqCmp.compare_eq_iff_eq.2 (congrArg Prod.fst he))

/-- The entries of `t` are the one at `k` and those of `t` without `k`. -/
theorem toList_perm {t : ExtTreeMap α β cmp} {k : α} {v : β} (h : t[k]? = some v) :
    t.toList.Perm ((k, v) :: (t.erase k).toList) := by
  classical
  refine (List.perm_ext_iff_of_nodup (nodup_toList t) ?_).2 fun p => ?_
  · refine List.nodup_cons.2 ⟨fun hm => ?_, nodup_toList _⟩
    rw [ExtTreeMap.mem_toList_iff_getElem?_eq_some, get_erase, if_pos rfl] at hm
    cases hm
  · obtain ⟨a, b⟩ := p
    rw [List.mem_cons, ExtTreeMap.mem_toList_iff_getElem?_eq_some,
      ExtTreeMap.mem_toList_iff_getElem?_eq_some, get_erase, Prod.mk.injEq]
    by_cases ha : k = a
    · subst ha
      rw [if_pos rfl, h, Option.some.injEq]
      simp [eq_comm]
    · simp [ha, Ne.symm ha]

theorem erase_insert_self {t : ExtTreeMap α β cmp} {k : α} {v : β} :
    (t.insert k v).erase k = t.erase k := by
  classical
  refine ext_get fun a => ?_
  simp only [get_insert, get_erase]
  split_ifs <;> rfl

/-! ## Rebuilding a map -/

/-- Some entry, found by going through all of them. -/
theorem exists_mem_toList {t : ExtTreeMap α β cmp} {p : β → Prop} :
    (∃ e ∈ t.toList, p e.2) ↔ ∃ (k : α) (v : β), t[k]? = some v ∧ p v := by
  constructor
  · rintro ⟨⟨k, v⟩, hmem, hp⟩
    exact ⟨k, v, ExtTreeMap.mem_toList_iff_getElem?_eq_some.1 hmem, hp⟩
  · rintro ⟨k, v, hget, hp⟩
    exact ⟨(k, v), ExtTreeMap.mem_toList_iff_getElem?_eq_some.2 hget, hp⟩

/-- Insertions at keys with pairwise different entries: the entries are what is found. -/
theorem get_foldl_insert [DecidableEq α] (k : α) : ∀ (l : List (α × β)) (t : ExtTreeMap α β cmp),
    (∀ p ∈ l, p.1 ≠ k) → (l.foldl (fun u p => u.insert p.1 p.2) t)[k]? = t[k]?
  | [], _, _ => rfl
  | p :: l, t, h => by
    rw [List.foldl_cons, get_foldl_insert k l _ fun q hq => h q (List.mem_cons_of_mem _ hq),
      get_insert, if_neg (h p List.mem_cons_self)]

theorem get_foldl_insert_mem [DecidableEq α] {k : α} {v : β} : ∀ {l : List (α × β)}
    (t : ExtTreeMap α β cmp), l.Pairwise (fun p q => p.1 ≠ q.1) → (k, v) ∈ l →
      (l.foldl (fun u p => u.insert p.1 p.2) t)[k]? = some v
  | p :: l, t, hd, hm => by
    obtain ⟨hp, hl⟩ := List.pairwise_cons.1 hd
    rcases List.mem_cons.1 hm with rfl | hm
    · rw [List.foldl_cons, get_foldl_insert k l _ fun q hq => Ne.symm (hp q hq), get_insert,
        if_pos rfl]
    · rw [List.foldl_cons]
      exact get_foldl_insert_mem _ hl hm

theorem get_foldl_erase [DecidableEq α] (a : α) : ∀ (ks : List α) (t : ExtTreeMap α β cmp),
    (ks.foldl (fun u k => u.erase k) t)[a]? = if a ∈ ks then none else t[a]?
  | [], _ => rfl
  | k :: ks, t => by
    rw [List.foldl_cons, get_foldl_erase a ks, get_erase]
    by_cases h : k = a
    · simp [h]
    · simp [h, Ne.symm h]

/-- Inserting all entries of a map into the empty one gives the map. -/
theorem foldl_insert_toList (t : ExtTreeMap α β cmp) :
    t.toList.foldl (fun u p => u.insert p.1 p.2) (∅ : ExtTreeMap α β cmp) = t := by
  classical
  have hd : t.toList.Pairwise (fun p q => p.1 ≠ q.1) :=
    (ExtTreeMap.distinct_keys_toList (t := t)).imp fun h he =>
      h (LawfulEqCmp.compare_eq_iff_eq.2 he)
  refine ext_get fun k => ?_
  cases h : t[k]? with
  | some v =>
    exact get_foldl_insert_mem _ hd (ExtTreeMap.mem_toList_iff_getElem?_eq_some.2 h)
  | none =>
    rw [get_foldl_insert k]
    · simp
    · rintro ⟨a, b⟩ hp rfl
      rw [ExtTreeMap.mem_toList_iff_getElem?_eq_some.1 hp] at h
      cases h

/-! ## Maps related at every key -/

section
variable {γ : Type} {R : β → γ → Prop} {t : ExtTreeMap α β cmp} {u : ExtTreeMap α γ cmp}

/-- The maps have the same keys, with related values. -/
def Rels (R : β → γ → Prop) (t : ExtTreeMap α β cmp) (u : ExtTreeMap α γ cmp) : Prop :=
  ∀ k : α, Option.Rel R t[k]? u[k]?

omit [LawfulEqCmp cmp] in
theorem Rels.empty : Rels R (∅ : ExtTreeMap α β cmp) (∅ : ExtTreeMap α γ cmp) := fun k => by
  rw [ExtTreeMap.getElem?_empty, ExtTreeMap.getElem?_empty]
  exact .none

theorem Rels.insert (h : Rels R t u) (k : α) {v : β} {w : γ} (hvw : R v w) :
    Rels R (t.insert k v) (u.insert k w) := by
  classical
  intro a
  rw [get_insert, get_insert]
  split_ifs
  · exact .some hvw
  · exact h a

theorem Rels.erase (h : Rels R t u) (k : α) : Rels R (t.erase k) (u.erase k) := by
  classical
  intro a
  rw [get_erase, get_erase]
  split_ifs
  · exact .none
  · exact h a

omit [LawfulEqCmp cmp] in
theorem Rels.some_left (h : Rels R t u) {k : α} {v : β} (hv : t[k]? = some v) :
    ∃ w, u[k]? = some w ∧ R v w := by
  have hk := h k
  rw [hv] at hk
  cases hu : u[k]? with
  | none => rw [hu] at hk; cases hk
  | some w => rw [hu] at hk; cases hk; exact ⟨w, rfl, ‹_›⟩

omit [LawfulEqCmp cmp] in
theorem Rels.some (h : Rels R t u) {k : α} {w : γ} (hw : u[k]? = some w) :
    ∃ v, t[k]? = some v ∧ R v w := by
  have hk := h k
  rw [hw] at hk
  cases ht : t[k]? with
  | none => rw [ht] at hk; cases hk
  | some v => rw [ht] at hk; cases hk; exact ⟨v, rfl, ‹_›⟩

omit [LawfulEqCmp cmp] in
theorem Rels.none (h : Rels R t u) {k : α} (hw : u[k]? = none) : t[k]? = none := by
  have hk := h k
  rw [hw] at hk
  cases ht : t[k]? with
  | none => rfl
  | some v => rw [ht] at hk; cases hk

omit [LawfulEqCmp cmp] in
theorem Rels.isSome (h : Rels R t u) (k : α) : (u[k]?).isSome = (t[k]?).isSome := by
  cases hu : u[k]? with
  | none => rw [h.none hu]; rfl
  | some w =>
    obtain ⟨v, hv, -⟩ := h.some hu
    rw [hv]
    rfl

end

/-! ## Totals -/

/-- The sum of a weight over the values of a map. -/
def total (f : β → Nat) (t : ExtTreeMap α β cmp) : Nat := (t.toList.map fun p => f p.2).sum

omit [LawfulEqCmp cmp] in
@[simp] theorem total_empty (f : β → Nat) : total f (∅ : ExtTreeMap α β cmp) = 0 := by
  simp [total, ExtTreeMap.toList_eq_nil_iff.2]

/-- Taking `k` out takes out what `k` weighs. -/
theorem total_erase (f : β → Nat) (t : ExtTreeMap α β cmp) (k : α) :
    total f (t.erase k) + (t[k]?).elim 0 f = total f t := by
  cases h : t[k]? with
  | none => rw [erase_of_none h]; rfl
  | some v =>
    unfold total
    rw [((toList_perm h).map _).sum_eq, List.map_cons, List.sum_cons, Nat.add_comm]
    rfl

/-- Putting `v` at `k` adds its weight and takes out what `k` weighed. -/
theorem total_insert (f : β → Nat) (t : ExtTreeMap α β cmp) (k : α) (v : β) :
    total f (t.insert k v) + (t[k]?).elim 0 f = total f t + f v := by
  classical
  have h1 := total_erase f (t.insert k v) k
  rw [erase_insert_self, get_insert, if_pos rfl] at h1
  have h2 := total_erase f t k
  simp only [Option.elim_some] at h1
  omega

/-- A map that differs at `k` only. -/
theorem total_update (f : β → Nat) {t u : ExtTreeMap α β cmp} {k : α} {new : Option β}
    (hk : u[k]? = new) (h : ∀ a : α, a ≠ k → u[a]? = t[a]?) :
    total f u + (t[k]?).elim 0 f = total f t + new.elim 0 f := by
  classical
  have herase : u.erase k = t.erase k := by
    refine ext_get fun a => ?_
    rw [get_erase, get_erase]
    split_ifs with ha
    · rfl
    · exact h a (Ne.symm ha)
  have h1 := total_erase f u k
  have h2 := total_erase f t k
  rw [herase, hk] at h1
  omega

theorem le_total (f : β → Nat) {t : ExtTreeMap α β cmp} {k : α} {v : β} (h : t[k]? = some v) :
    f v ≤ total f t := by
  have := total_erase f t k
  rw [h, Option.elim_some] at this
  omega

theorem total_eq_zero (f : β → Nat) {t : ExtTreeMap α β cmp}
    (h : ∀ (k : α) v, t[k]? = some v → f v = 0) : total f t = 0 := by
  refine List.sum_eq_zero fun n hn => ?_
  obtain ⟨p, hp, rfl⟩ := List.mem_map.1 hn
  exact h p.1 p.2 (ExtTreeMap.mem_toList_iff_getElem?_eq_some.1 hp)

/-- Values that each lay claim to another key of `u`, and weigh at most what is there, weigh at most
all of `u`; a value may claim nothing if it weighs nothing. -/
theorem sum_le_total {γ : Type} (f : γ → Nat) (w : β → Nat) (key : γ → Option α) :
    ∀ (l : List γ) (u : ExtTreeMap α β cmp),
      l.Pairwise (fun b b' => ∀ k, key b = some k → key b' ≠ some k) →
      (∀ b ∈ l, key b = none → f b = 0) →
      (∀ b ∈ l, ∀ k, key b = some k → ∃ v, u[k]? = some v ∧ f b ≤ w v) →
      (l.map f).sum ≤ total w u
  | [], _, _, _, _ => Nat.zero_le _
  | b :: l, u, hd, h0, h1 => by
    classical
    obtain ⟨hb, hl⟩ := List.pairwise_cons.1 hd
    rw [List.map_cons, List.sum_cons]
    have h0' : ∀ b' ∈ l, key b' = none → f b' = 0 := fun b' hb' => h0 b' (List.mem_cons_of_mem _ hb')
    cases hk : key b with
    | none =>
      have := sum_le_total f w key l u hl h0' fun b' hb' => h1 b' (List.mem_cons_of_mem _ hb')
      have := h0 b List.mem_cons_self hk
      omega
    | some k =>
      obtain ⟨v, hv, hle⟩ := h1 b List.mem_cons_self k hk
      have := sum_le_total f w key l (u.erase k) hl h0' fun b' hb' k' hk' => by
        have hne : k ≠ k' := fun he => hb b' hb' k hk (he ▸ hk')
        rw [get_erase, if_neg hne]
        exact h1 b' (List.mem_cons_of_mem _ hb') k' hk'
      have := total_erase w u k
      rw [hv, Option.elim_some] at this
      omega

/-- The same for the values of a map. -/
theorem total_le_total {κ γ : Type} {cmp' : κ → κ → Ordering} [TransCmp cmp'] [LawfulEqCmp cmp']
    (f : γ → Nat) (w : β → Nat) (key : γ → Option α) {t : ExtTreeMap κ γ cmp'}
    {u : ExtTreeMap α β cmp} (h0 : ∀ (a : κ) b, t[a]? = some b → key b = none → f b = 0)
    (h1 : ∀ (a : κ) b k, t[a]? = some b → key b = some k → ∃ v, u[k]? = some v ∧ f b ≤ w v)
    (hinj : ∀ (a a' : κ) b b' k, t[a]? = some b → t[a']? = some b' → key b = some k →
      key b' = some k → a = a') : total f t ≤ total w u := by
  have hget : ∀ {p : κ × γ}, p ∈ t.toList → t[p.1]? = some p.2 := fun hp =>
    ExtTreeMap.mem_toList_iff_getElem?_eq_some.1 hp
  have hsum : total f t = ((t.toList.map Prod.snd).map f).sum := by
    rw [total, List.map_map]
    rfl
  rw [hsum]
  refine sum_le_total f w key _ u (List.pairwise_map.2 ?_) ?_ ?_
  · refine List.Pairwise.imp_of_mem ?_ (ExtTreeMap.distinct_keys_toList (t := t))
    intro p q hp hq hne k hk hk'
    exact hne (LawfulEqCmp.compare_eq_iff_eq.2 (hinj _ _ _ _ k (hget hp) (hget hq) hk hk'))
  · intro b hb hk
    obtain ⟨p, hp, rfl⟩ := List.mem_map.1 hb
    exact h0 p.1 p.2 (hget hp) hk
  · intro b hb k hk
    obtain ⟨p, hp, rfl⟩ := List.mem_map.1 hb
    exact h1 p.1 p.2 k (hget hp) hk

end FinMap
