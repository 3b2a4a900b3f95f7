import Mathlib.Algebra.BigOperators.Group.List.Basic
import Mathlib.Algebra.GroupWithZero.Nat
import Mathlib.Data.List.Nodup

/-!
# Bounded maps that forget what was used least recently

An `Lru` holds at most `cap` entries with different keys, the most recently used one first. A lookup
moves its entry to the front; `put` replaces the value of a key or, when the map is full, drops the
last entry without saying so (`victim?`). `weight f` is the total of `f` over the values: the lemmas
say what each operation takes from it and adds to it.
-/

structure Lru (α β : Type) where
  cap : Nat
  /-- The most recently used first. -/
  entries : List (α × β)
  pos : 0 < cap
  bounded : entries.length ≤ cap
  distinct : entries.Pairwise fun p q => p.1 ≠ q.1

namespace Lru

variable {α β : Type} [DecidableEq α]

def empty (cap : Nat) (pos : 0 < cap) : Lru α β := ⟨cap, [], pos, Nat.zero_le _, .nil⟩

variable (c : Lru α β) (k : α) (v : β)

/-- The value of a key. -/
def peek : Option β := c.entries.lookup k

/-- The entries of the other keys. -/
def others : List (α × β) := c.entries.filter fun p => p.1 ≠ k

theorem length_others_le : (c.others k).length ≤ c.entries.length := List.length_filter_le _ _

theorem distinct_others : (c.others k).Pairwise fun p q => p.1 ≠ q.1 := c.distinct.filter _

/-- At the front, with the first `n` of the others behind it. -/
theorem distinct_cons (n : Nat) :
    ((k, v) :: (c.others k).take n).Pairwise fun p q => p.1 ≠ q.1 := by
  refine List.pairwise_cons.2 ⟨fun q hq => ?_, (c.distinct_others k).sublist (List.take_sublist _ _)⟩
  have := List.of_mem_filter (List.mem_of_mem_take hq)
  exact Ne.symm (by simpa using this)

theorem length_cons_take_le : ((k, v) :: (c.others k).take (c.cap - 1)).length ≤ c.cap := by
  have := c.pos
  rw [List.length_cons, List.length_take]
  omega

/-- `LruCache::put`, which returns the value it replaces. -/
def put : Option β × Lru α β :=
  (c.peek k, ⟨c.cap, (k, v) :: (c.others k).take (c.cap - 1), c.pos, c.length_cons_take_le k v,
    c.distinct_cons k v _⟩)

/-- `LruCache::get`. -/
def get : Option β × Lru α β :=
  match c.peek k with
  | some v => (some v, (c.put k v).2)
  | none => (none, c)

/-- `LruCache::pop`. -/
def pop : Option β × Lru α β :=
  (c.peek k, ⟨c.cap, c.others k, c.pos, Nat.le_trans (c.length_others_le k) c.bounded,
    c.distinct_others k⟩)

/-- `LruCache::pop_lru`. -/
def popLru : Option (α × β) × Lru α β :=
  (c.entries.getLast?, ⟨c.cap, c.entries.dropLast, c.pos,
    Nat.le_trans (List.dropLast_sublist _).length_le c.bounded,
    c.distinct.sublist (List.dropLast_sublist _)⟩)

/-- What `put` drops without saying so: the last entry, for a new key in a full map. -/
def victim? : Option (α × β) :=
  if c.peek k = none ∧ c.entries.length = c.cap then c.entries.getLast? else none

/-! ## Lookups -/

variable {c k v}

theorem lookup_cons (a : α) (b : β) (l : List (α × β)) :
    ((a, b) :: l).lookup k = if a = k then some b else l.lookup k := by
  rw [List.lookup_cons]
  split_ifs with h
  · rw [h, beq_self_eq_true]
  · rw [beq_false_of_ne (Ne.symm h)]

theorem mem_of_lookup : ∀ {l : List (α × β)}, l.lookup k = some v → (k, v) ∈ l
  | [], h => by cases h
  | (a, b) :: l, h => by
    rw [lookup_cons] at h
    split_ifs at h with ha
    · cases h
      exact ha ▸ List.mem_cons_self
    · exact List.mem_cons_of_mem _ (mem_of_lookup h)

theorem lookup_eq_none : ∀ {l : List (α × β)}, l.lookup k = none → ∀ p ∈ l, p.1 ≠ k
  | [], _, p, hp => by cases hp
  | (a, b) :: l, h, p, hp => by
    rw [lookup_cons] at h
    split_ifs at h with ha
    rcases List.mem_cons.1 hp with rfl | hp
    · exact ha
    · exact lookup_eq_none h p hp

theorem lookup_of_mem : ∀ {l : List (α × β)}, l.Pairwise (fun p q => p.1 ≠ q.1) → (k, v) ∈ l →
    l.lookup k = some v
  | (a, b) :: l, hd, hm => by
    obtain ⟨ha, hl⟩ := List.pairwise_cons.1 hd
    rw [lookup_cons]
    rcases List.mem_cons.1 hm with heq | hm
    · cases heq
      rw [if_pos rfl]
    · rw [if_neg (ha _ hm)]
      exact lookup_of_mem hl hm

theorem peek_iff : c.peek k = some v ↔ (k, v) ∈ c.entries :=
  ⟨mem_of_lookup, lookup_of_mem c.distinct⟩

theorem mem_others {p : α × β} : p ∈ c.others k ↔ p ∈ c.entries ∧ p.1 ≠ k := by
  rw [others, List.mem_filter, decide_eq_true_eq]

/-- A map whose entries are among those of another one finds nothing else. -/
theorem peek_of_subset {d : Lru α β} (h : ∀ p ∈ d.entries, p ∈ c.entries) (hv : d.peek k = some v) :
    c.peek k = some v := peek_iff.2 (h _ (peek_iff.1 hv))

/-- After `put`, a key has the new value or the value it had. -/
theorem peek_put {a : α} {b : β} (h : (c.put k v).2.peek a = some b) :
    (a = k ∧ b = v) ∨ (a ≠ k ∧ c.peek a = some b) := by
  rcases List.mem_cons.1 (peek_iff.1 h) with heq | hm
  · cases heq
    exact .inl ⟨rfl, rfl⟩
  · obtain ⟨hm, hne⟩ := mem_others.1 (List.mem_of_mem_take hm)
    exact .inr ⟨hne, peek_iff.2 hm⟩

theorem peek_pop {a : α} {b : β} (h : (pop c k).2.peek a = some b) : a ≠ k ∧ c.peek a = some b := by
  obtain ⟨hm, hne⟩ := mem_others.1 (peek_iff.1 h)
  exact ⟨hne, peek_iff.2 hm⟩

theorem peek_popLru {a : α} {b : β} (h : c.popLru.2.peek a = some b) : c.peek a = some b :=
  peek_of_subset (fun _ hp => (List.dropLast_sublist _).subset hp) h

theorem peek_get {a : α} {b : β} (h : (c.get k).2.peek a = some b) : c.peek a = some b := by
  unfold get at h
  cases hk : c.peek k with
  | none =>
    rw [hk] at h
    exact h
  | some v =>
    rw [hk] at h
    obtain ⟨rfl, rfl⟩ | ⟨-, h⟩ := peek_put h
    · exact hk
    · exact h

theorem get_fst : (c.get k).1 = c.peek k := by
  unfold get
  cases h : c.peek k with
  | none => rfl
  | some v => rfl

/-! ## Weights -/

/-- The total of `f` over the values. -/
def weight (f : β → Nat) (c : Lru α β) : Nat := (c.entries.map fun p => f p.2).sum

theorem sum_filter (f : β → Nat) (k : α) : ∀ {l : List (α × β)}, l.Pairwise (fun p q => p.1 ≠ q.1) →
    ((l.filter fun p => p.1 ≠ k).map fun p => f p.2).sum + (l.lookup k).elim 0 f
      = (l.map fun p => f p.2).sum
  | [], _ => rfl
  | (a, b) :: l, hd => by
    obtain ⟨ha, hl⟩ := List.pairwise_cons.1 hd
    have ih := sum_filter f k hl
    rw [lookup_cons, List.map_cons, List.sum_cons]
    by_cases h : a = k
    · subst h
      -- the key occurs once
      have hkeep : l.filter (fun p => p.1 ≠ a) = l :=
        List.filter_eq_self.2 fun p hp => by simpa using Ne.symm (ha p hp)
      rw [List.filter_cons_of_neg (by simp), hkeep, if_pos rfl, Option.elim_some]
      dsimp only
      omega
    · rw [List.filter_cons_of_pos (by simpa using h), List.map_cons, List.sum_cons, if_neg h]
      omega

omit [DecidableEq α] in
theorem sum_dropLast (f : β → Nat) (l : List (α × β)) :
    (l.dropLast.map fun p => f p.2).sum + l.getLast?.elim 0 (fun p => f p.2)
      = (l.map fun p => f p.2).sum := by
  rcases List.eq_nil_or_concat l with rfl | ⟨xs, x, rfl⟩
  · rfl
  · simp

theorem weight_others (f : β → Nat) :
    ((c.others k).map fun p => f p.2).sum + (c.peek k).elim 0 f = c.weight f :=
  sum_filter f k c.distinct

theorem weight_pop (f : β → Nat) : (pop c k).2.weight f + (c.peek k).elim 0 f = c.weight f :=
  weight_others f

omit [DecidableEq α] in
theorem weight_popLru (f : β → Nat) :
    c.popLru.2.weight f + c.entries.getLast?.elim 0 (fun p => f p.2) = c.weight f :=
  sum_dropLast f c.entries

theorem others_of_none (h : c.peek k = none) : c.others k = c.entries :=
  List.filter_eq_self.2 fun p hp => by simpa using lookup_eq_none h p hp

theorem length_others_of_some (h : c.peek k = some v) : (c.others k).length < c.entries.length := by
  refine List.length_filter_lt_length_iff_exists.2 ⟨(k, v), peek_iff.1 h, by simp⟩

/-- `put` adds the new value and takes away the one it replaces or its victim. -/
theorem weight_put (f : β → Nat) :
    (c.put k v).2.weight f + (c.peek k).elim 0 f + (c.victim? k).elim 0 (fun p => f p.2)
      = c.weight f + f v := by
  have hothers := weight_others (c := c) (k := k) f
  have hbound := c.bounded
  show (((k, v) :: (c.others k).take (c.cap - 1)).map fun p => f p.2).sum + _ + _ = _
  rw [List.map_cons, List.sum_cons, victim?]
  dsimp only
  by_cases hfull : c.peek k = none ∧ c.entries.length = c.cap
  · rw [if_pos hfull, ← hfull.2, others_of_none hfull.1, hfull.1, Option.elim_none,
      ← List.dropLast_eq_take]
    have := sum_dropLast f c.entries
    rw [weight]
    omega
  · have hlen : (c.others k).length ≤ c.cap - 1 := by
      cases hk : c.peek k with
      | some w =>
        have := length_others_of_some hk
        omega
      | none =>
        have hne : c.entries.length ≠ c.cap := fun h => hfull ⟨hk, h⟩
        rw [others_of_none hk]
        omega
    rw [if_neg hfull, List.take_of_length_le hlen, Option.elim_none]
    omega

/-- A lookup leaves the weight. -/
theorem weight_get (f : β → Nat) : (c.get k).2.weight f = c.weight f := by
  unfold get
  cases hk : c.peek k with
  | none => rfl
  | some v =>
    have := weight_put (c := c) (k := k) (v := v) f
    rw [hk, victim?, hk, if_neg (by simp), Option.elim_some, Option.elim_none] at this
    show (c.put k v).2.weight f = _
    omega

end Lru
