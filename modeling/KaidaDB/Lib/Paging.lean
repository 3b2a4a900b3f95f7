import Mathlib.Order.Lattice
import Mathlib.Data.List.Basic

/-!
# Reading a changing sorted list page by page

Each call sees the list as it is at that time (`snapshots`), takes up to `limit` elements after the
cursor, the last element of the page before, and the scan ends with a page that is not full. Whatever
the snapshots are, the pages together increase (`scan_sorted`), and an element that every call sees
is among them (`mem_scan`); over a list that does not change there are at most as many full pages as
its length allows, and one more (`length_scan`).
-/

namespace Paging

variable {α : Type} [LinearOrder α]

/-- The elements after a cursor. -/
def after (cursor : Option α) (l : List α) : List α := l.filter fun k => ∀ c ∈ cursor, c < k

/-- The pages, and whether the scan has ended within the snapshots. -/
def scan (limit : Nat) : List (List α) → Option α → List (List α) × Bool
  | [], _ => ([], false)
  | l :: snapshots, cursor =>
    let rest := after cursor l
    if limit ≤ rest.length then
      let (pages, done) := scan limit snapshots (rest.take limit).getLast?
      (rest.take limit :: pages, done)
    else ([rest], true)

variable {limit : Nat} {cursor : Option α} {k : α}

theorem mem_after {l : List α} : k ∈ after cursor l ↔ k ∈ l ∧ ∀ c ∈ cursor, c < k := by
  simp [after]

theorem after_sorted (cursor : Option α) {l : List α} (h : l.Pairwise (· < ·)) : (after cursor l).Pairwise (· < ·) :=
  h.filter _

theorem le_getLast {xs : List α} (h : xs.Pairwise (· < ·)) {c : α} (hc : xs.getLast? = some c) :
    ∀ k ∈ xs, k ≤ c := by
  obtain ⟨ys, rfl⟩ := List.getLast?_eq_some_iff.1 hc
  intro k hk
  rcases List.mem_append.1 hk with hk | hk
  · exact le_of_lt ((List.pairwise_append.1 h).2.2 k hk c (List.mem_singleton.2 rfl))
  · exact le_of_eq (List.mem_singleton.1 hk)

/-- The elements after the last one of a first part are those of the rest. -/
theorem after_getLast {xs ys : List α} (h : (xs ++ ys).Pairwise (· < ·)) {c : α}
    (hc : xs.getLast? = some c) : after (some c) (xs ++ ys) = ys := by
  obtain ⟨hxs, -, hcross⟩ := List.pairwise_append.1 h
  have h1 : after (some c) xs = [] := List.filter_eq_nil_iff.2 fun k hk => by
    simpa using le_getLast hxs hc k hk
  have h2 : after (some c) ys = ys := List.filter_eq_self.2 fun k hk => by
    simpa using hcross c (List.mem_of_getLast? hc) k hk
  rw [after, List.filter_append, ← after, ← after, h1, h2, List.nil_append]

/-- A full page ends with some element, and the elements after it are the others. -/
theorem exists_getLast {l : List α} (h : l.Pairwise (· < ·)) (hlimit : 0 < limit)
    (hfull : limit ≤ l.length) :
    ∃ c, (l.take limit).getLast? = some c ∧ after (some c) l = l.drop limit := by
  have hne : l.take limit ≠ [] := by
    rw [← List.length_pos_iff, List.length_take]
    omega
  have hc := List.getLast?_eq_some_getLast hne
  refine ⟨_, hc, ?_⟩
  have hsplit := List.take_append_drop limit l
  have := after_getLast (hsplit.symm ▸ h) hc
  rwa [hsplit] at this

/-- Elements after a later cursor. -/
theorem after_after {l : List α} {c : α} (hc : ∀ x ∈ cursor, x < c) :
    after (some c) (after cursor l) = after (some c) l := by
  rw [after, after, List.filter_filter]
  refine List.filter_congr fun k _ => ?_
  have : c < k → ∀ x ∈ cursor, x < k := fun hk x hx => lt_trans (hc x hx) hk
  simpa using this

/-- **The pages increase**, from the cursor on. -/
theorem scan_sorted : ∀ {snapshots : List (List α)} (cursor : Option α), 0 < limit →
    (∀ l ∈ snapshots, l.Pairwise (· < ·)) →
    (scan limit snapshots cursor).1.flatten.Pairwise (· < ·) ∧
      ∀ k ∈ (scan limit snapshots cursor).1.flatten, ∀ c ∈ cursor, c < k
  | [], _, _, _ => ⟨.nil, nofun⟩
  | l :: snapshots, cursor, hlimit, h => by
    have hrest := after_sorted cursor (h l List.mem_cons_self)
    have hafter : ∀ k ∈ after cursor l, ∀ c ∈ cursor, c < k := fun k hk => (mem_after.1 hk).2
    rw [scan]
    dsimp only
    split_ifs with hfull
    · obtain ⟨c, hc, -⟩ := exists_getLast hrest hlimit hfull
      obtain ⟨h1, h2⟩ := scan_sorted (some c) hlimit
        fun l' hl' => h l' (List.mem_cons_of_mem _ hl')
      rw [hc]
      have htake := hrest.sublist (List.take_sublist limit _)
      have hpage : ∀ k ∈ (after cursor l).take limit, k ≤ c := le_getLast htake hc
      have hcmem := List.mem_of_mem_take (List.mem_of_getLast? hc)
      rw [List.flatten_cons]
      refine ⟨List.pairwise_append.2 ⟨htake, h1, fun a ha b hb => ?_⟩, fun k hk x hx => ?_⟩
      · exact lt_of_le_of_lt (hpage a ha) (h2 b hb c rfl)
      · rcases List.mem_append.1 hk with hk | hk
        · exact hafter k (List.mem_of_mem_take hk) x hx
        · exact lt_trans (hafter c hcmem x hx) (h2 k hk c rfl)
    · rw [List.flatten_singleton]
      exact ⟨hrest, hafter⟩

/-- No page is longer than `limit`, and its elements are those of a snapshot. -/
theorem scan_pages : ∀ {snapshots : List (List α)} {cursor : Option α},
    ∀ page ∈ (scan limit snapshots cursor).1,
      page.length ≤ limit ∧ ∃ l ∈ snapshots, ∀ k ∈ page, k ∈ l
  | [], _, _, h => by cases h
  | l :: snapshots, cursor, page, h => by
    rw [scan] at h
    dsimp only at h
    split_ifs at h with hfull
    · rcases List.mem_cons.1 h with rfl | h
      · exact ⟨List.length_take_le _ _, l, List.mem_cons_self,
          fun k hk => (mem_after.1 (List.mem_of_mem_take hk)).1⟩
      · obtain ⟨h1, l', hl', h2⟩ := scan_pages page h
        exact ⟨h1, l', List.mem_cons_of_mem _ hl', h2⟩
    · obtain rfl := List.mem_singleton.1 h
      exact ⟨by omega, l, List.mem_cons_self, fun k hk => (mem_after.1 hk).1⟩

/-- **An element that every call sees is returned** by a scan that has ended. -/
theorem mem_scan : ∀ {snapshots : List (List α)} {cursor : Option α}, 0 < limit →
    (∀ l ∈ snapshots, l.Pairwise (· < ·)) → (scan limit snapshots cursor).2 = true →
    (∀ l ∈ snapshots.take (scan limit snapshots cursor).1.length, k ∈ l) → (∀ c ∈ cursor, c < k) →
    k ∈ (scan limit snapshots cursor).1.flatten
  | [], _, _, _, hdone, _, _ => by cases hdone
  | l :: snapshots, cursor, hlimit, h, hdone, hk, hcursor => by
    have hrest := after_sorted cursor (h l List.mem_cons_self)
    rw [scan] at hdone hk ⊢
    dsimp only at hdone hk ⊢
    split_ifs at hdone hk ⊢ with hfull
    · obtain ⟨c, hc, hdrop⟩ := exists_getLast hrest hlimit hfull
      rw [hc] at hdone hk ⊢
      rw [List.length_cons, List.take_succ_cons] at hk
      have hmem : k ∈ after cursor l := mem_after.2 ⟨hk l List.mem_cons_self, hcursor⟩
      rw [List.flatten_cons, List.mem_append]
      -- it is on this page or after its last element
      by_cases hpage : k ∈ (after cursor l).take limit
      · exact .inl hpage
      · refine .inr (mem_scan hlimit (fun l' hl' => h l' (List.mem_cons_of_mem _ hl')) hdone
          (fun l' hl' => hk l' (List.mem_cons_of_mem _ hl')) ?_)
        rw [← List.take_append_drop limit (after cursor l), List.mem_append] at hmem
        have := hmem.resolve_left hpage
        rw [← hdrop] at this
        exact (mem_after.1 this).2
    · rw [List.flatten_singleton]
      exact mem_after.2 ⟨hk l List.mem_cons_self, hcursor⟩

/-- **The number of calls** over a list that does not change. -/
theorem length_scan {l : List α} (hlimit : 0 < limit) (h : l.Pairwise (· < ·)) :
    ∀ (calls : Nat) (cursor : Option α),
      (scan limit (List.replicate calls l) cursor).1.length ≤ (after cursor l).length / limit + 1 ∧
      ((after cursor l).length / limit < calls →
        (scan limit (List.replicate calls l) cursor).2 = true)
  | 0, _ => ⟨Nat.zero_le _, fun h => absurd h (Nat.not_lt_zero _)⟩
  | calls + 1, cursor => by
    have hrest := after_sorted cursor h
    rw [List.replicate_succ, scan]
    dsimp only
    split_ifs with hfull
    · obtain ⟨c, hc, hdrop⟩ := exists_getLast hrest hlimit hfull
      have hcmem := List.mem_of_mem_take (List.mem_of_getLast? hc)
      obtain ⟨h1, h2⟩ := length_scan hlimit h calls (some c)
      have hlen : (after (some c) l).length = (after cursor l).length - limit := by
        rw [← after_after (mem_after.1 hcmem).2, hdrop, List.length_drop]
      have hdiv : (after cursor l).length / limit = (after (some c) l).length / limit + 1 := by
        rw [hlen, ← Nat.add_div_right _ hlimit]
        congr 1
        omega
      rw [hc, hdiv, List.length_cons]
      exact ⟨by omega, fun hlt => h2 (by omega)⟩
    · exact ⟨by simp, fun _ => rfl⟩

end Paging
