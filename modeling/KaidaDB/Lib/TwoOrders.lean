import Mathlib.Data.Finset.Sort
import KaidaDB.Lib.Paging

/-!
# Pages cut in one order and resumed in another

A sorted list of keys, some of which have an id; keys of one id stand together. Each call looks at the
first `window` keys after its cursor and returns the first `limit` of their ids, in the order of ids;
the cursor of the next call lies behind the keys of the last id returned. The order of the keys is
another order on the ids (`mark`). `Fair` says of groups of `limit` ids in the order of the keys that the
two orders agree where it matters; all calls together return each id once if and only if it holds
(`once_iff`).
-/

/-- Keys with their ids, and the two orders. -/
structure TwoOrders (κ α : Type) [LinearOrder κ] [LinearOrder α] where
  idOf : κ → Option α
  /-- Where the keys of an id stand among the keys. -/
  mark : α → κ
  /-- The cursor behind the keys of an id. -/
  cursor : α → κ
  mark_injective : Function.Injective mark
  mark_mono : ∀ {k k' t t'}, idOf k = some t → idOf k' = some t' → k ≤ k' → mark t ≤ mark t'
  cursor_lt : ∀ {k k' b t}, idOf k' = some b → idOf k = some t → (cursor b < k ↔ mark b < mark t)
  /-- An id that stands behind a greater one stands behind those in between as well. -/
  between : ∀ {k k' k'' a b c}, idOf k = some a → idOf k' = some b → idOf k'' = some c →
    a < b → b < c → mark c < mark a → mark b < mark a

namespace TwoOrders

open Paging

variable {κ α : Type} [LinearOrder κ] [LinearOrder α] (S : TwoOrders κ α) (window limit : Nat)

def ids (keys : List κ) : Finset α := (keys.filterMap S.idOf).toFinset

/-- The ids among the first keys. -/
def seen (keys : List κ) : Finset α := S.ids (keys.take window)

/-- The keys behind those of `b`. -/
def behind (b : α) (keys : List κ) : List κ := keys.filter fun k => S.cursor b < k

/-- What a call returns. -/
def page (keys : List κ) : List α := ((S.seen window keys).sort (· ≤ ·)).take limit

/-- All pages, of at most so many calls. -/
def pages : Nat → List κ → Option (List (List α))
  | 0, _ => none
  | calls + 1, keys =>
    match (S.page window limit keys).getLast? with
    | some b =>
      if (S.page window limit keys).length = limit then
        (pages calls (S.behind b keys)).map (S.page window limit keys :: ·)
      else some [S.page window limit keys]
    | none => some [S.page window limit keys]

/-- In the order of the keys the ids fall into groups of `limit`, the last one smaller. -/
inductive Fair : List κ → Prop
  /-- The ids of the last group are all seen. -/
  | last {keys : List κ} (hfew : (S.ids keys).card < limit)
    (hseen : S.ids keys ⊆ S.seen window keys) : Fair keys
  /-- The last id `e` of a group is seen, and of the ids seen those before it are the same in both
  orders. -/
  | group {keys : List κ} {e : α} (he : e ∈ S.seen window keys)
    (hlimit : ((S.ids keys).filter fun t => S.mark t ≤ S.mark e).card = limit)
    (hagree : ∀ t ∈ S.seen window keys, t < e ↔ S.mark t < S.mark e)
    (hrest : Fair (S.behind e keys)) : Fair keys

variable {S window limit} {keys : List κ} {t b : α}

theorem mem_ids : t ∈ S.ids keys ↔ ∃ k ∈ keys, S.idOf k = some t := by
  rw [ids, List.mem_toFinset, List.mem_filterMap]

theorem seen_subset : S.seen window keys ⊆ S.ids keys := by
  intro t ht
  obtain ⟨k, hk, hid⟩ := mem_ids.1 ht
  exact mem_ids.2 ⟨k, List.mem_of_mem_take hk, hid⟩

theorem behind_sorted (h : keys.Pairwise (· < ·)) (b : α) : (S.behind b keys).Pairwise (· < ·) :=
  h.filter _

theorem mem_ids_behind (hb : b ∈ S.ids keys) :
    t ∈ S.ids (S.behind b keys) ↔ t ∈ S.ids keys ∧ S.mark b < S.mark t := by
  obtain ⟨kb, hkb, hidb⟩ := mem_ids.1 hb
  rw [mem_ids, mem_ids]
  constructor
  · rintro ⟨k, hk, hid⟩
    obtain ⟨hk, hlt⟩ := List.mem_filter.1 hk
    exact ⟨⟨k, hk, hid⟩, (S.cursor_lt hidb hid).1 (by simpa using hlt)⟩
  · rintro ⟨⟨k, hk, hid⟩, hlt⟩
    exact ⟨k, List.mem_filter.2 ⟨hk, by simpa using (S.cursor_lt hidb hid).2 hlt⟩, hid⟩

theorem length_behind_lt (hb : b ∈ S.ids keys) : (S.behind b keys).length < keys.length := by
  obtain ⟨k, hk, hid⟩ := mem_ids.1 hb
  refine List.length_filter_lt_length_iff_exists.2 ⟨k, hk, ?_⟩
  have := (S.cursor_lt hid hid).not.2 (lt_irrefl _)
  simpa using this

/-- The first keys of a sorted list come before the others. -/
theorem mem_take_of_lt : ∀ {n : Nat} {keys : List κ} {k k' : κ}, keys.Pairwise (· < ·) →
    k' ∈ keys.take n → k ∈ keys → k ≤ k' → k ∈ keys.take n
  | 0, _, _, _, _, h, _, _ => by simp at h
  | n + 1, [], _, _, _, h, _, _ => by simp at h
  | n + 1, x :: xs, k, k', hs, h, hk, hle => by
    obtain ⟨hx, hs⟩ := List.pairwise_cons.1 hs
    rw [List.take_succ_cons, List.mem_cons] at h ⊢
    rcases List.mem_cons.1 hk with rfl | hk'
    · exact .inl rfl
    · rcases h with rfl | h
      · exact absurd (hx k hk') (not_lt.2 hle)
      · exact .inr (mem_take_of_lt hs h hk' hle)

/-- What is seen is a first part in the order of the keys. -/
theorem mem_seen_of_le {u : α} (h : keys.Pairwise (· < ·)) (hu : u ∈ S.seen window keys)
    (ht : t ∈ S.ids keys) (hle : S.mark t ≤ S.mark u) : t ∈ S.seen window keys := by
  obtain ⟨ku, hku, hidu⟩ := mem_ids.1 hu
  obtain ⟨kt, hkt, hidt⟩ := mem_ids.1 ht
  by_cases hk : kt ≤ ku
  · exact mem_ids.2 ⟨kt, mem_take_of_lt h hku hkt hk, hidt⟩
  · have hmark := S.mark_mono hidu hidt (le_of_lt (not_le.1 hk))
    rw [S.mark_injective (le_antisymm hle hmark)]
    exact hu

omit [LinearOrder κ] in
theorem mem_take_filter {f : κ → Bool} : ∀ {n : Nat} {keys : List κ} {k : κ},
    k ∈ keys.take n → f k = true → k ∈ (keys.filter f).take n
  | 0, _, _, h, _ => by simp at h
  | n + 1, [], _, h, _ => by simp at h
  | n + 1, x :: xs, k, h, hf => by
    rw [List.take_succ_cons, List.mem_cons] at h
    cases hx : f x with
    | true =>
      rw [List.filter_cons_of_pos hx, List.take_succ_cons, List.mem_cons]
      exact h.imp_right fun h => mem_take_filter h hf
    | false =>
      rw [List.filter_cons_of_neg (by simp [hx])]
      rcases h with rfl | h
      · rw [hf] at hx
        cases hx
      · exact List.take_subset_take_left _ (Nat.le_succ n) (mem_take_filter h hf)

/-- A call sees what an earlier one saw, as far as it lies behind its cursor. -/
theorem seen_behind (hb : b ∈ S.ids keys) (ht : t ∈ S.seen window keys)
    (hlt : S.mark b < S.mark t) : t ∈ S.seen window (S.behind b keys) := by
  obtain ⟨k, hk, hid⟩ := mem_ids.1 ht
  obtain ⟨kb, -, hidb⟩ := mem_ids.1 hb
  exact mem_ids.2 ⟨k, mem_take_filter hk (by simpa using (S.cursor_lt hidb hid).2 hlt), hid⟩

/-! ## A page -/

/-- A page that is not full has all ids seen. -/
theorem page_short (h : (S.seen window keys).card < limit) :
    S.page window limit keys = (S.seen window keys).sort (· ≤ ·) :=
  List.take_of_length_le (by rw [Finset.length_sort]; omega)

/-- A full page has the ids seen up to its last one. -/
theorem page_full (hlimit : 0 < limit) (h : limit ≤ (S.seen window keys).card) :
    (S.page window limit keys).length = limit ∧
      ∃ b ∈ S.seen window keys, (S.page window limit keys).getLast? = some b ∧
        (∀ t, t ∈ S.page window limit keys ↔ t ∈ S.seen window keys ∧ t ≤ b) ∧
        ((S.seen window keys).filter (· ≤ b)).card = limit := by
  have hsorted : ((S.seen window keys).sort (· ≤ ·)).Pairwise (· < ·) :=
    (Finset.sortedLT_sort _).pairwise
  have hlen : ((S.seen window keys).sort (· ≤ ·)).length = (S.seen window keys).card :=
    Finset.length_sort _
  obtain ⟨b, hb, hafter⟩ := exists_getLast hsorted hlimit (by rw [hlen]; exact h)
  have hle := le_getLast (hsorted.sublist (List.take_sublist limit _)) hb
  have hpage : (S.page window limit keys).length = limit := by
    rw [page, List.length_take, hlen]
    omega
  have hmem : ∀ t, t ∈ S.page window limit keys ↔ t ∈ S.seen window keys ∧ t ≤ b := by
    intro t
    constructor
    · intro ht
      exact ⟨(Finset.mem_sort _).1 (List.mem_of_mem_take ht), hle t ht⟩
    · rintro ⟨ht, htb⟩
      have htsort := (Finset.mem_sort (· ≤ ·)).2 ht
      rw [← List.take_append_drop limit ((S.seen window keys).sort (· ≤ ·)), List.mem_append,
        ← hafter] at htsort
      refine htsort.resolve_right fun hin => ?_
      exact absurd ((mem_after.1 hin).2 b rfl) (not_lt.2 htb)
  refine ⟨hpage, b, (Finset.mem_sort _).1 (List.mem_of_mem_take (List.mem_of_getLast? hb)), hb, hmem,
    ?_⟩
  have hset : (S.seen window keys).filter (· ≤ b) = (S.page window limit keys).toFinset := by
    ext t
    rw [Finset.mem_filter, List.mem_toFinset, hmem]
  rw [hset, List.toFinset_card_of_nodup, hpage]
  exact (Finset.sort_nodup _ _).sublist (List.take_sublist limit _)

theorem page_nodup : (S.page window limit keys).Nodup :=
  (Finset.sort_nodup _ _).sublist (List.take_sublist limit _)

theorem page_seen (h : t ∈ S.page window limit keys) : t ∈ S.seen window keys :=
  (Finset.mem_sort _).1 (List.mem_of_mem_take h)

variable (S window) in
/-- The next step of the scan. -/
theorem pages_cases (hlimit : 0 < limit) {calls : Nat} {ps : List (List α)}
    (h : S.pages window limit (calls + 1) keys = some ps) :
    ((S.seen window keys).card < limit ∧ ps = [(S.seen window keys).sort (· ≤ ·)]) ∨
    ∃ b ps', b ∈ S.seen window keys ∧ S.pages window limit calls (S.behind b keys) = some ps' ∧
      ps = S.page window limit keys :: ps' ∧ (S.page window limit keys).getLast? = some b ∧
      (∀ t, t ∈ S.page window limit keys ↔ t ∈ S.seen window keys ∧ t ≤ b) ∧
      ((S.seen window keys).filter (· ≤ b)).card = limit := by
  rw [pages] at h
  by_cases hfew : (S.seen window keys).card < limit
  · refine .inl ⟨hfew, ?_⟩
    have hlen : (S.page window limit keys).length ≠ limit := by
      rw [page_short hfew, Finset.length_sort]
      omega
    rw [← page_short hfew]
    split at h
    · rw [if_neg hlen] at h
      exact (Option.some.inj h).symm
    · exact (Option.some.inj h).symm
  · obtain ⟨hlen, b, hb, hlast, hmem, hcard⟩ := page_full hlimit (Nat.le_of_not_lt hfew)
    rw [hlast] at h
    dsimp only at h
    rw [if_pos hlen, Option.map_eq_some_iff] at h
    obtain ⟨ps', hps', rfl⟩ := h
    exact .inr ⟨b, ps', hb, hps', rfl, hlast, hmem, hcard⟩

/-- The scan ends: every call goes beyond the keys of an id. -/
theorem exists_pages (hlimit : 0 < limit) : ∀ {calls : Nat} {keys : List κ}, keys.length < calls →
    ∃ ps, S.pages window limit calls keys = some ps
  | calls + 1, keys, h => by
    rw [pages]
    split
    · rename_i b hb
      have hmem := seen_subset (page_seen (List.mem_of_getLast? hb))
      have hless := length_behind_lt hmem
      have hrest : (S.behind b keys).length < calls := by omega
      obtain ⟨ps, hps⟩ := exists_pages hlimit hrest
      split_ifs
      · exact ⟨_, by rw [hps]; rfl⟩
      · exact ⟨_, rfl⟩
    · exact ⟨_, rfl⟩

/-- Only ids are returned. -/
theorem pages_ids (hlimit : 0 < limit) : ∀ {calls : Nat} {keys : List κ} {ps : List (List α)},
    S.pages window limit calls keys = some ps → ∀ t ∈ ps.flatten, t ∈ S.ids keys
  | 0, _, _, h, _, _ => by cases h
  | calls + 1, keys, ps, h, t, ht => by
    rcases pages_cases S window hlimit h with ⟨-, rfl⟩ | ⟨b, ps', hb, hps', rfl, -⟩
    · rw [List.flatten_singleton, Finset.mem_sort] at ht
      exact seen_subset ht
    · rw [List.flatten_cons, List.mem_append] at ht
      rcases ht with ht | ht
      · exact seen_subset (page_seen ht)
      · exact ((mem_ids_behind (seen_subset hb)).1 (pages_ids hlimit hps' t ht)).1

/-! ## Each id once -/

/-- The pages have every id exactly once. -/
def Once (S : TwoOrders κ α) (keys : List κ) (ps : List (List α)) : Prop :=
  ∀ t ∈ S.ids keys, ps.flatten.count t = 1

/-- A full page and the pages behind it have each id once if the page has just the ids that are not
behind its last one, and the pages behind it are right. -/
theorem once_cons (hlimit : 0 < limit) {calls : Nat} {ps : List (List α)} (hb : b ∈ S.seen window keys)
    (hps : S.pages window limit calls (S.behind b keys) = some ps)
    (hpage : ∀ t ∈ S.ids keys, t ∈ S.page window limit keys ↔ S.mark t ≤ S.mark b) :
    Once S keys (S.page window limit keys :: ps) ↔ Once S (S.behind b keys) ps := by
  have hcount : ∀ t ∈ S.ids keys, S.mark b < S.mark t →
      (S.page window limit keys :: ps).flatten.count t = ps.flatten.count t := by
    intro t ht hlt
    have hnot : t ∉ S.page window limit keys := fun h => absurd ((hpage t ht).1 h) (not_le.2 hlt)
    rw [List.flatten_cons, List.count_append, List.count_eq_zero.2 hnot, Nat.zero_add]
  constructor
  · intro h t ht
    obtain ⟨ht, hlt⟩ := (mem_ids_behind (seen_subset hb)).1 ht
    rw [← hcount t ht hlt]
    exact h t ht
  · intro h t ht
    by_cases hlt : S.mark b < S.mark t
    · rw [hcount t ht hlt]
      exact h t ((mem_ids_behind (seen_subset hb)).2 ⟨ht, hlt⟩)
    · have hin := (hpage t ht).2 (not_lt.1 hlt)
      have hout : t ∉ ps.flatten := fun hmem =>
        hlt ((mem_ids_behind (seen_subset hb)).1 (pages_ids hlimit hps t hmem)).2
      rw [List.flatten_cons, List.count_append, List.count_eq_zero.2 hout,
        List.count_eq_one_of_mem page_nodup hin]

/-- An id on a full page that stands behind the last one leads to one that is returned twice. -/
theorem exists_twice (hlimit : 0 < limit) : ∀ {calls : Nat} {keys : List κ} {ps : List (List α)} {b t : α},
    keys.Pairwise (· < ·) → S.pages window limit calls keys = some ps →
    limit ≤ (S.seen window keys).card → (S.page window limit keys).getLast? = some b →
    t ∈ S.page window limit keys → S.mark b < S.mark t →
    ∃ u, 2 ≤ ps.flatten.count u
  | 0, _, _, _, _, _, h, _, _, _, _ => by cases h
  | calls + 1, keys, ps, b, t, hs, h, hfull, hb, ht, hlt => by
    obtain ⟨hfew, -⟩ | ⟨b, ps, hbseen, hps, rfl, hlast, hmem, hcard⟩ := pages_cases S window hlimit h
    · omega
    cases hb.symm.trans hlast
    have htseen := seen_behind (seen_subset hbseen) (page_seen ht) hlt
    have htwice : ∀ u, u ∈ S.page window limit keys → u ∈ ps.flatten →
        2 ≤ (S.page window limit keys :: ps).flatten.count u := by
      intro u hu hu'
      have := List.count_pos_iff.2 hu
      have := List.count_pos_iff.2 hu'
      rw [List.flatten_cons, List.count_append]
      omega
    cases calls with
    | zero => cases hps
    | succ calls =>
    obtain ⟨hfew, rfl⟩ | ⟨b', ps', hbseen', hps', rfl, hlast', hmem', hcard'⟩ :=
      pages_cases S window hlimit hps
    · -- the last call returns it again
      exact ⟨t, htwice t ht (by rw [List.flatten_singleton, Finset.mem_sort]; exact htseen)⟩
    by_cases hboth : ∃ u ∈ S.page window limit keys, u ∈ S.page window limit (S.behind b keys)
    · obtain ⟨u, hu, hu'⟩ := hboth
      exact ⟨u, htwice u hu (by rw [List.flatten_cons]; exact List.mem_append_left _ hu')⟩
    -- the next page has only ids that were not seen before, all smaller than `t`
    have hnew : ∀ u ∈ S.page window limit (S.behind b keys), u < t ∧ S.mark t < S.mark u := by
      intro u hu
      have hut : u < t := by
        have htnot : ¬ t ≤ b' := fun hle => hboth ⟨t, ht, (hmem' t).2 ⟨htseen, hle⟩⟩
        exact lt_of_le_of_lt ((hmem' u).1 hu).2 (not_le.1 htnot)
      refine ⟨hut, not_le.1 fun hle => hboth ⟨u, (hmem u).2 ⟨?_, ?_⟩, hu⟩⟩
      · exact mem_seen_of_le hs (page_seen ht)
          ((mem_ids_behind (seen_subset hbseen)).1 (seen_subset (page_seen hu))).1 hle
      · exact le_of_lt (lt_of_lt_of_le hut ((hmem t).1 ht).2)
    have htwo : 1 < ((S.seen window keys).filter (· ≤ b)).card := by
      refine Finset.one_lt_card.2 ⟨t, ?_, b, ?_, fun heq => ?_⟩
      · exact Finset.mem_filter.2 ((hmem t).1 ht)
      · exact Finset.mem_filter.2 ⟨hbseen, le_refl b⟩
      · rw [heq] at hlt
        exact lt_irrefl _ hlt
    obtain ⟨u, hu, hne⟩ := Finset.exists_mem_ne (by rw [hcard', ← hcard]; exact htwo) b'
    have hupage := (hmem' u).2 (Finset.mem_filter.1 hu)
    have hub : u < b' := lt_of_le_of_ne (Finset.mem_filter.1 hu).2 hne
    obtain ⟨ku, -, hidu⟩ := mem_ids.1 (seen_subset (page_seen hupage))
    obtain ⟨kb, -, hidb⟩ := mem_ids.1 (seen_subset hbseen')
    obtain ⟨kt, -, hidt⟩ := mem_ids.1 (seen_subset htseen)
    have hbt : b' < t := (hnew b' ((hmem' b').2 ⟨hbseen', le_refl b'⟩)).1
    have hbehind := S.between hidu hidb hidt hub hbt (hnew u hupage).2
    have hfull' : limit ≤ (S.seen window (S.behind b keys)).card :=
      hcard' ▸ Finset.card_filter_le _ _
    obtain ⟨v, hv⟩ := exists_twice hlimit (behind_sorted hs b) hps hfull' hlast' hupage hbehind
    refine ⟨v, Nat.le_trans hv ?_⟩
    rw [List.flatten_cons (l := S.page window limit keys), List.count_append]
    exact Nat.le_add_left _ _

/-- So many elements are at most `e` for one `e` only. -/
theorem eq_of_card_filter_le {s : Finset α} {e b : α} (he : e ∈ s) (hb : b ∈ s)
    (h : (s.filter (· ≤ e)).card = (s.filter (· ≤ b)).card) : e = b := by
  have hlt : ∀ {x y : α}, y ∈ s → x < y → (s.filter (· ≤ x)).card < (s.filter (· ≤ y)).card := by
    intro x y hy hxy
    refine Finset.card_lt_card (Finset.ssubset_iff_of_subset ?_ |>.2 ⟨y, ?_, ?_⟩)
    · intro t ht
      obtain ⟨hts, htx⟩ := Finset.mem_filter.1 ht
      exact Finset.mem_filter.2 ⟨hts, le_trans htx (le_of_lt hxy)⟩
    · exact Finset.mem_filter.2 ⟨hy, le_refl y⟩
    · intro hin
      exact absurd (Finset.mem_filter.1 hin).2 (not_le.2 hxy)
  rcases lt_trichotomy e b with hlt' | heq | hgt
  · exact absurd h (Nat.ne_of_lt (hlt hb hlt'))
  · exact heq
  · exact absurd h.symm (Nat.ne_of_lt (hlt he hgt))

/-- **Each id is returned once if and only if** the groups of ids are fair. -/
theorem once_iff (hlimit : 0 < limit) : ∀ {calls : Nat} {keys : List κ} {ps : List (List α)},
    keys.Pairwise (· < ·) → S.pages window limit calls keys = some ps →
    (Once S keys ps ↔ Fair S window limit keys)
  | 0, _, _, _, h => by cases h
  | calls + 1, keys, ps, hs, h => by
    -- a group in the order of the keys up to an id that is seen is seen
    have hgroup : ∀ {e}, e ∈ S.seen window keys →
        ((S.ids keys).filter fun t => S.mark t ≤ S.mark e)
          = (S.seen window keys).filter fun t => S.mark t ≤ S.mark e := by
      intro e he
      ext t
      rw [Finset.mem_filter, Finset.mem_filter]
      exact ⟨fun h => ⟨mem_seen_of_le hs he h.1 h.2, h.2⟩, fun h => ⟨seen_subset h.1, h.2⟩⟩
    obtain ⟨hfew, rfl⟩ | ⟨b, ps, hb, hps, rfl, hlast, hmem, hcard⟩ := pages_cases S window hlimit h
    · constructor
      · intro honce
        have hseen : S.ids keys ⊆ S.seen window keys := by
          intro t ht
          have hpos : 0 < _ := (honce t ht).symm ▸ Nat.one_pos
          rw [List.count_pos_iff, List.flatten_singleton, Finset.mem_sort] at hpos
          exact hpos
        exact .last (lt_of_le_of_lt (Finset.card_le_card hseen) hfew) hseen
      · intro hfair
        cases hfair with
        | last hids hseen =>
          intro t ht
          rw [List.flatten_singleton]
          exact List.count_eq_one_of_mem (Finset.sort_nodup _ _) ((Finset.mem_sort _).2 (hseen ht))
        | group he hlim hagree hrest =>
          rename_i e
          rw [hgroup he] at hlim
          have := Finset.card_filter_le (S.seen window keys) fun t => S.mark t ≤ S.mark e
          omega
    · have hpagecard : limit ≤ (S.seen window keys).card := hcard ▸ Finset.card_filter_le _ _
      -- the page is the group up to `b` as soon as the orders agree there
      have hagree_iff : (∀ t ∈ S.ids keys, t ∈ S.page window limit keys ↔ S.mark t ≤ S.mark b) ↔
          ∀ t ∈ S.seen window keys, t < b ↔ S.mark t < S.mark b := by
        constructor
        · intro hpage t ht
          have hle : t ≤ b ↔ S.mark t ≤ S.mark b := by
            rw [← hpage t (seen_subset ht), hmem]
            exact ⟨fun h => ⟨ht, h⟩, And.right⟩
          rw [lt_iff_le_and_ne, lt_iff_le_and_ne, hle, S.mark_injective.ne_iff]
        · intro hagree t ht
          rw [hmem]
          constructor
          · rintro ⟨hseen, hle⟩
            rcases eq_or_lt_of_le hle with rfl | hlt
            · exact le_refl _
            · exact le_of_lt ((hagree t hseen).1 hlt)
          · intro hle
            have hseen := mem_seen_of_le hs hb ht hle
            refine ⟨hseen, ?_⟩
            rcases eq_or_lt_of_le hle with heq | hlt
            · exact le_of_eq (S.mark_injective heq)
            · exact le_of_lt ((hagree t hseen).2 hlt)
      -- the ids up to one where the orders agree
      have hupto : ∀ {e}, e ∈ S.seen window keys →
          (∀ t ∈ S.seen window keys, t < e ↔ S.mark t < S.mark e) →
          ((S.ids keys).filter fun t => S.mark t ≤ S.mark e)
            = (S.seen window keys).filter (· ≤ e) := by
        intro e he hagree
        rw [hgroup he]
        refine Finset.filter_congr fun t ht => ?_
        rw [le_iff_eq_or_lt, le_iff_eq_or_lt (a := t), hagree t ht, S.mark_injective.eq_iff]
      constructor
      · intro honce
        have hpage : ∀ t ∈ S.ids keys, t ∈ S.page window limit keys ↔ S.mark t ≤ S.mark b := by
          intro t ht
          constructor
          · intro hin
            by_contra hlt
            obtain ⟨u, hu⟩ := exists_twice hlimit hs h hpagecard hlast hin (not_le.1 hlt)
            have huids := pages_ids hlimit h u (List.count_pos_iff.1 (by omega))
            have := honce u huids
            omega
          · intro hle
            have hpos : 0 < _ := (honce t ht).symm ▸ Nat.one_pos
            rw [List.count_pos_iff, List.flatten_cons, List.mem_append] at hpos
            refine hpos.resolve_right fun hin => ?_
            have := ((mem_ids_behind (seen_subset hb)).1 (pages_ids hlimit hps t hin)).2
            exact absurd hle (not_le.2 this)
        refine .group hb ?_ (hagree_iff.1 hpage)
          ((once_iff hlimit (behind_sorted hs b) hps).1 ((once_cons hlimit hb hps hpage).1 honce))
        rw [hupto hb (hagree_iff.1 hpage), hcard]
      · intro hfair
        cases hfair with
        | last hids hseen =>
          have := Finset.card_le_card (show S.seen window keys ⊆ S.ids keys from seen_subset)
          omega
        | group he hlim hagree hrest =>
          rename_i e
          have heb : e = b := by
            rw [hupto he hagree, ← hcard] at hlim
            exact eq_of_card_filter_le he hb hlim
          subst heb
          have hpage := hagree_iff.2 hagree
          exact (once_cons hlimit hb hps hpage).2
            ((once_iff hlimit (behind_sorted hs e) hps).2 hrest)

end TwoOrders
