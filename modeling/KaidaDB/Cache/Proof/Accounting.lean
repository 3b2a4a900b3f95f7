import KaidaDB.Cache.ChunkCache

/-!
# What the cache holds and what it counts

`Bounded`: what is resident is within the budget and no more than is counted, and a value in the cache
is the one last inserted under its id. Every call keeps it (`Bounded.step`), so no subtraction panics
(`cache_within_budget`). The count exceeds what is resident by the bytes that `put` dropped because of
the bound on entries (`drift`), and nothing takes this back: a run is exact if and only if there were
none (`cache_exact_iff`).
-/

namespace KaidaDB

namespace ChunkCache

/-- `last` is what was inserted last for each id. -/
structure Bounded (c : ChunkCache) (last : ChunkId → Option Bytes) : Prop where
  counted : c.resident ≤ c.currentSize
  budget : c.resident ≤ c.maxSize
  fresh : ∀ id data, c.cache.peek id = some data → last id = some data

/-- What is counted and not there. -/
def drift (c : ChunkCache) : Nat := c.currentSize - c.resident

variable {c : ChunkCache} {last : ChunkId → Option Bytes}

/-! ## What each call counts -/

theorem subSize_ok {size n : Nat} (h : n ≤ size) : subSize size n = .ok (size - n) := if_pos h

theorem get_eq (c : ChunkCache) (id : ChunkId) : (c.get id).1 = c.cache.peek id ∧
    (c.get id).2.cache = (c.cache.get id).2 ∧ (c.get id).2.currentSize = c.currentSize ∧
    (c.get id).2.maxSize = c.maxSize := by
  have hfst := Lru.get_fst (c := c.cache) (k := id)
  unfold ChunkCache.get
  split <;> rename_i heq <;> rw [heq] at hfst ⊢ <;> exact ⟨hfst, rfl, rfl, rfl⟩

/-- Making room leaves the drift, and ends with room or with nothing left; it takes nothing out if there
is room already. -/
theorem evict_spec (dataLen : Nat) : ∀ {c : ChunkCache}, c.resident ≤ c.currentSize →
    ∃ c', evict dataLen c.cache.entries.length c = .ok c' ∧ c'.maxSize = c.maxSize ∧
      c'.resident ≤ c'.currentSize ∧ c'.drift = c.drift ∧
      (∀ id data, c'.cache.peek id = some data → c.cache.peek id = some data) ∧
      (c'.currentSize + dataLen ≤ c.maxSize ∨ c'.cache.entries = []) ∧
      (c' = c ∨ c'.cache.entries.length < c'.cache.cap ∧ c.maxSize < c.currentSize + dataLen) := by
  intro c
  generalize hn : c.cache.entries.length = n
  induction n generalizing c with
  | zero =>
    intro hle
    have hnil := List.length_eq_zero_iff.1 hn
    exact ⟨c, rfl, rfl, hle, rfl, fun _ _ h => h, .inr hnil, .inl rfl⟩
  | succ n ih =>
    intro hle
    unfold evict
    split_ifs with hroom
    · have hw := Lru.weight_popLru (c := c.cache) List.length
      have hres : c.cache.weight List.length = c.resident := rfl
      obtain ⟨p, hlast⟩ : ∃ p, c.cache.entries.getLast? = some p := by
        refine Option.ne_none_iff_exists'.1 fun hnone => ?_
        rw [List.getLast?_eq_none_iff.1 hnone] at hn
        cases hn
      rw [hlast, Option.elim_some] at hw
      have hp : p.2.length ≤ c.currentSize := by omega
      rw [show c.cache.popLru = (some p, c.cache.popLru.2) from Prod.ext hlast rfl]
      simp only [subSize_ok hp]
      show ∃ c', evict dataLen n { c with
        cache := c.cache.popLru.2, currentSize := c.currentSize - p.2.length } = .ok c' ∧ _
      -- one entry is out, and the count went down by its length
      generalize hc1 : ({ c with
        cache := c.cache.popLru.2, currentSize := c.currentSize - p.2.length } : ChunkCache) = c1
      have hres1 : c1.resident = c.cache.popLru.2.weight List.length := by rw [← hc1]; rfl
      have hcur1 : c1.currentSize = c.currentSize - p.2.length := by rw [← hc1]
      have hlen1 : c1.cache.entries.length = n := by
        rw [← hc1]
        show c.cache.entries.dropLast.length = n
        rw [List.length_dropLast, hn]
        rfl
      have hmax1 : c1.maxSize = c.maxSize := by rw [← hc1]
      have hpeek1 : ∀ id data, c1.cache.peek id = some data → c.cache.peek id = some data := by
        rw [← hc1]
        exact fun id data h => Lru.peek_popLru h
      have hdrift1 : c1.drift = c.drift := by
        rw [drift, drift]
        omega
      obtain ⟨c', hrun, h1, h2, h3, h4, h5, h6⟩ := ih hlen1 (by omega)
      refine ⟨c', hrun, h1.trans hmax1, h2, h3.trans hdrift1,
        fun id data h => hpeek1 id data (h4 id data h), hmax1 ▸ h5, .inr ⟨?_, hroom⟩⟩
      rcases h6 with rfl | ⟨h6, -⟩
      · have := c.cache.bounded
        have hcap : c'.cache.cap = c.cache.cap := by rw [← hc1]; rfl
        omega
      · exact h6
    · exact ⟨c, rfl, rfl, hle, rfl, fun _ _ h => h, .inl (by omega), .inl rfl⟩

/-- An insertion that is not refused: what is dropped uncounted is the victim of an insertion that
finds room. -/
theorem insert_spec (id : ChunkId) {data : Bytes} (hle : c.resident ≤ c.currentSize) (hsize : data.length ≤ c.maxSize) :
    ∃ c', c.insert id data = .ok c' ∧ c'.maxSize = c.maxSize ∧ c'.resident ≤ c'.currentSize ∧
      c'.resident ≤ c.maxSize ∧ c.drift ≤ c'.drift ∧
      (c'.drift = c.drift ↔ ¬ c.DropsUncounted (.insert id data)) ∧
      (∀ a b, c'.cache.peek a = some b →
        (a = id ∧ b = data) ∨ (a ≠ id ∧ c.cache.peek a = some b)) := by
  obtain ⟨c1, hrun, h1, h2, h3, h4, h5, h6⟩ := evict_spec data.length hle
  have hw := Lru.weight_put (c := c1.cache) (k := id) (v := data) List.length
  have hothers := Lru.weight_others (c := c1.cache) (k := id) List.length
  have hres1 : c1.cache.weight List.length = c1.resident := rfl
  have hold : (c1.cache.peek id).elim 0 List.length ≤ c1.currentSize := by omega
  -- the map can only be full if the loop has taken nothing out
  have hvictim : (c1.cache.victim? id).elim 0 (fun p => p.2.length) = 0 ↔
      ¬ c.DropsUncounted (.insert id data) := by
    rcases h6 with rfl | ⟨hlt, hfull⟩
    · cases hv : c1.cache.victim? id with
      | none => simp [DropsUncounted, hv]
      | some p =>
        have hroom : c1.currentSize + data.length ≤ c1.maxSize := by
          refine h5.resolve_right fun h5 => ?_
          rw [Lru.victim?, h5] at hv
          simp at hv
        simp [DropsUncounted, hv, hroom, List.length_eq_zero_iff]
    · have hnone : c1.cache.victim? id = none := by
        rw [Lru.victim?, if_neg fun h => by omega]
      rw [hnone]
      refine iff_of_true rfl fun h => ?_
      have := h.1
      omega
  generalize hc' : ({ c1 with
    cache := (c1.cache.put id data).2
    currentSize := c1.currentSize - (c1.cache.peek id).elim 0 List.length + data.length } :
      ChunkCache) = c'
  have hres : c'.resident = (c1.cache.put id data).2.weight List.length := by rw [← hc']; rfl
  have hcur : c'.currentSize
      = c1.currentSize - (c1.cache.peek id).elim 0 List.length + data.length := by rw [← hc']
  have hdrift : c'.drift = c.drift + (c1.cache.victim? id).elim 0 fun p => p.2.length := by
    rw [← h3, drift, drift]
    omega
  refine ⟨c', ?_, ?_, by omega, ?_, by omega, by rw [← hvictim]; omega, fun a b hb => ?_⟩
  · unfold ChunkCache.insert
    rw [if_neg (by omega), ← hc']
    simp only [hrun]
    show (do
      let currentSize ← subSize c1.currentSize ((c1.cache.peek id).elim 0 List.length)
      pure _ : Except Fail ChunkCache) = _
    rw [subSize_ok hold]
    rfl
  · rw [← hc']
    exact h1
  · rcases h5 with h5 | h5
    · omega
    · have hzero : c1.resident = 0 := by rw [resident, Lru.weight, h5]; rfl
      omega
  · rw [← hc'] at hb
    obtain h | ⟨hne, h⟩ := Lru.peek_put hb
    · exact .inl h
    · exact .inr ⟨hne, h4 a b h⟩

theorem invalidate_spec (id : ChunkId) (hle : c.resident ≤ c.currentSize) :
    ∃ c', c.invalidate id = .ok c' ∧ c'.maxSize = c.maxSize ∧ c'.resident ≤ c'.currentSize ∧
      c'.resident ≤ c.resident ∧ c'.drift = c.drift ∧
      ∀ a b, c'.cache.peek a = some b → a ≠ id ∧ c.cache.peek a = some b := by
  have hw := Lru.weight_pop (c := c.cache) (k := id) List.length
  have hres : c.cache.weight List.length = c.resident := rfl
  have hold : (c.cache.peek id).elim 0 List.length ≤ c.currentSize := by omega
  have hrun : c.invalidate id = .ok { c with
      cache := (c.cache.pop id).2
      currentSize := c.currentSize - (c.cache.peek id).elim 0 List.length } := by
    show (do
      let currentSize ← subSize c.currentSize ((c.cache.peek id).elim 0 List.length)
      pure _ : Except Fail ChunkCache) = _
    rw [subSize_ok hold]
    rfl
  refine ⟨_, hrun, rfl, ?_, ?_, ?_, fun a b hb => Lru.peek_pop hb⟩
  · show (c.cache.pop id).2.weight List.length ≤ c.currentSize - _
    omega
  · show (c.cache.pop id).2.weight List.length ≤ _
    omega
  · show c.currentSize - _ - (c.cache.pop id).2.weight List.length = c.currentSize - c.resident
    omega

/-! ## Runs -/

/-- **What a call does**: the bytes resident and counted, the drift, and what can be found. -/
theorem Bounded.step (h : c.Bounded last) (op : CacheOp) :
    ∃ c', c.step op = .ok c' ∧ c'.maxSize = c.maxSize ∧
      c'.Bounded (fun id => lastInserted c.maxSize id (last id) [op]) ∧ c.drift ≤ c'.drift ∧
      (c'.drift = c.drift ↔ ¬ c.DropsUncounted op) := by
  cases op with
  | get id =>
    obtain ⟨-, hcache, hcur, hmax⟩ := get_eq c id
    have hres : (c.get id).2.resident = c.resident := by
      rw [resident, hcache, Lru.weight_get, resident]
    have hdrift : (c.get id).2.drift = c.drift := by rw [drift, drift, hres, hcur]
    refine ⟨_, rfl, hmax, ⟨?_, ?_, fun a b hb => ?_⟩, ?_, ?_⟩
    · rw [hres, hcur]
      exact h.counted
    · rw [hres, hmax]
      exact h.budget
    · rw [hcache] at hb
      exact h.fresh a b (Lru.peek_get hb)
    · exact Nat.le_of_eq hdrift.symm
    · exact iff_of_true hdrift fun h => h
  | insert id data =>
    by_cases hbig : c.maxSize < data.length
    · have hrefused : c.insert id data = .ok c := by
        unfold ChunkCache.insert
        rw [if_pos hbig]
        rfl
      refine ⟨c, hrefused, rfl, ⟨h.counted, h.budget, fun a b hb => ?_⟩, Nat.le_refl _, iff_of_true rfl fun hd => ?_⟩
      · rw [lastInserted, if_neg fun hd => by omega]
        exact h.fresh a b hb
      · have := hd.1
        omega
    · obtain ⟨c', hrun, h1, h2, h3, h4, h5, h6⟩ := insert_spec id h.counted (Nat.le_of_not_lt hbig)
      refine ⟨c', hrun, h1, ⟨h2, h1 ▸ h3, fun a b hb => ?_⟩, h4, h5⟩
      rw [lastInserted]
      obtain ⟨rfl, rfl⟩ | ⟨hne, hb⟩ := h6 a b hb
      · rw [if_pos ⟨rfl, by omega⟩]
        rfl
      · rw [if_neg fun hd => hne hd.1.symm]
        exact h.fresh a b hb
  | invalidate id =>
    obtain ⟨c', hrun, h1, h2, h3, h4, h5⟩ := invalidate_spec id h.counted
    refine ⟨c', hrun, h1, ⟨h2, h1 ▸ Nat.le_trans h3 h.budget, fun a b hb => ?_⟩, Nat.le_of_eq h4.symm,
      iff_of_true h4 fun h => h⟩
    obtain ⟨hne, hb⟩ := h5 a b hb
    rw [lastInserted, if_neg (Ne.symm hne)]
    exact h.fresh a b hb

theorem lastInserted_cons (maxSize : Nat) (id : ChunkId) (last : Option Bytes) (op : CacheOp)
    (ops : List CacheOp) : lastInserted maxSize id last (op :: ops)
      = lastInserted maxSize id (lastInserted maxSize id last [op]) ops := by
  cases op <;> rfl

theorem Bounded.run : ∀ {c : ChunkCache} {last : ChunkId → Option Bytes} (ops : List CacheOp),
    c.Bounded last → ∃ c', c.run ops = .ok c' ∧ c'.maxSize = c.maxSize ∧
      c'.Bounded (fun id => lastInserted c.maxSize id (last id) ops) ∧ c.drift ≤ c'.drift ∧
      (c'.drift = c.drift ↔ c.CountedRun ops)
  | c, last, [], h => ⟨c, rfl, rfl, h, Nat.le_refl _, iff_of_true rfl trivial⟩
  | c, last, op :: ops, h => by
    obtain ⟨c1, hstep, hmax, hb, hle, hiff⟩ := h.step op
    obtain ⟨c2, hrun, hmax2, hb2, hle2, hiff2⟩ := hb.run ops
    refine ⟨c2, by rw [ChunkCache.run, hstep]; exact hrun, hmax2.trans hmax, ?_, by omega, ?_⟩
    · rw [hmax] at hb2
      simpa only [lastInserted_cons _ _ _ op ops] using hb2
    · rw [CountedRun, ← hiff, hstep]
      simp only [Except.toOption, Option.mem_some_iff, forall_eq']
      rw [← hiff2]
      omega

theorem Bounded.new (maxSize : Nat) : (ChunkCache.new maxSize).Bounded fun _ => none where
  counted := Nat.le_refl _
  budget := Nat.zero_le _
  fresh id data h := by cases h

/-- **The cache keeps to its budget.** No call panics; what is resident is at most `maxSize` and at most
what is counted, and a lookup returns the data last inserted under the id, unless it was invalidated. -/
theorem cache_within_budget (maxSize : Nat) (ops : List CacheOp) :
    ∃ c, (ChunkCache.new maxSize).run ops = .ok c ∧ c.resident ≤ maxSize ∧
      c.resident ≤ c.currentSize ∧
      ∀ id data, (c.get id).1 = some data → lastInserted maxSize id none ops = some data := by
  obtain ⟨c, hrun, hmax, hb, -, -⟩ := (Bounded.new maxSize).run ops
  refine ⟨c, hrun, Nat.le_trans hb.budget (Nat.le_of_eq hmax), hb.counted, fun id data h => ?_⟩
  rw [(get_eq c id).1] at h
  exact hb.fresh id data h

/-- **When the count is exact**: when no call of the run has dropped bytes without counting them. -/
theorem cache_exact_iff (maxSize : Nat) (ops : List CacheOp) :
    (∃ c, (ChunkCache.new maxSize).run ops = .ok c ∧ c.currentSize = c.resident ∧
      c.currentSize ≤ maxSize) ↔ (ChunkCache.new maxSize).CountedRun ops := by
  obtain ⟨c, hrun, hmax, hb, -, hiff⟩ := (Bounded.new maxSize).run ops
  rw [← hiff, show (ChunkCache.new maxSize).drift = 0 from rfl, drift]
  have := hb.counted
  have := hb.budget
  have : c.maxSize = maxSize := hmax
  constructor
  · rintro ⟨c', hrun', heq, -⟩
    cases hrun.symm.trans hrun'
    omega
  · intro h
    exact ⟨c, hrun, by omega, by omega⟩

/-! ## The bound on entries -/

theorem insert_new {id : ChunkId} {data : Bytes} (hnew : c.cache.peek id = none)
    (hroom : c.currentSize + data.length ≤ c.maxSize) :
    c.insert id data = .ok { c with
      cache := (c.cache.put id data).2, currentSize := c.currentSize + data.length } := by
  have hevict : ∀ n, evict data.length n c = .ok c
    | 0 => rfl
    | n + 1 => if_neg (by omega)
  unfold ChunkCache.insert
  rw [if_neg (by omega), hevict]
  show (do
    let currentSize ← subSize c.currentSize ((c.cache.peek id).elim 0 List.length)
    pure _ : Except Fail ChunkCache) = _
  rw [hnew, Option.elim_none, subSize_ok (Nat.zero_le _)]
  rfl

/-- Chunks of one byte for which there is room are all counted, and at most `cap` of them are kept. -/
theorem inserts_counted : ∀ (ids : List ChunkId) {c : ChunkCache}, ids.Nodup →
    (∀ id ∈ ids, c.cache.peek id = none) → c.currentSize + ids.length ≤ c.maxSize →
    (∀ p ∈ c.cache.entries, p.2.length = 1) →
    ∃ c', c.run (ids.map fun id => .insert id [0]) = .ok c' ∧
      c'.currentSize = c.currentSize + ids.length ∧ c'.resident ≤ c.cache.cap
  | [], c, _, _, _, hone => by
    refine ⟨c, rfl, rfl, ?_⟩
    rw [resident, Lru.weight, List.map_congr_left hone, List.map_const', List.sum_replicate_nat,
      Nat.mul_one]
    exact c.cache.bounded
  | id :: ids, c, hnd, hnew, hroom, hone => by
    obtain ⟨hid, hnd⟩ := List.nodup_cons.1 hnd
    rw [List.length_cons] at hroom
    have hins := insert_new (hnew id List.mem_cons_self)
      (show c.currentSize + [(0 : UInt8)].length ≤ c.maxSize by rw [List.length_singleton]; omega)
    have hstill : ∀ a ∈ ids, (c.cache.put id [0]).2.peek a = none := by
      refine fun a ha => Option.eq_none_iff_forall_ne_some.2 fun b hb => ?_
      obtain ⟨rfl, -⟩ | ⟨-, hb⟩ := Lru.peek_put hb
      · exact hid ha
      · rw [hnew a (List.mem_cons_of_mem _ ha)] at hb
        cases hb
    have hone' : ∀ p ∈ (c.cache.put id [0]).2.entries, p.2.length = 1 := by
      intro p hp
      rcases List.mem_cons.1 hp with rfl | hp
      · rfl
      · exact hone p (Lru.mem_others.1 (List.mem_of_mem_take hp)).1
    obtain ⟨c', hrun, hcur, hres⟩ := inserts_counted ids (c := { c with
        cache := (c.cache.put id [0]).2, currentSize := c.currentSize + [(0 : UInt8)].length }) hnd
      hstill (by rw [List.length_singleton]; dsimp only; omega) hone'
    refine ⟨c', ?_, ?_, hres⟩
    · rw [List.map_cons, ChunkCache.run, step, hins]
      exact hrun
    · rw [hcur, List.length_singleton, List.length_cons]
      dsimp only
      omega

/-- 256 different ids. -/
def manyIds : List ChunkId :=
  (List.finRange 256).map fun n => ⟨Vector.replicate 32 (UInt8.ofFin n)⟩

theorem manyIds_nodup : manyIds.Nodup := by
  refine (List.nodup_finRange 256).map fun a b h => ?_
  have := congrArg (fun id : ChunkId => id.bytes[0].toFin) h
  simpa using this

/-- A budget of 300 bytes and 256 chunks of one byte: all are counted, the map holds 64. -/
theorem cache_overcounts :
    ∃ c, (ChunkCache.new 300).run (manyIds.map fun id => .insert id [0]) = .ok c ∧
      c.currentSize ≠ c.resident := by
  obtain ⟨c, hrun, hcur, hres⟩ := inserts_counted manyIds (c := .new 300) manyIds_nodup
    (fun _ _ => rfl) (by simp [manyIds, ChunkCache.new]) (fun p hp => by cases hp)
  have hcap : (ChunkCache.new 300).cache.cap = 64 := rfl
  have hlen : manyIds.length = 256 := by simp [manyIds]
  have hzero : (ChunkCache.new 300).currentSize = 0 := rfl
  exact ⟨c, hrun, by omega⟩

end ChunkCache

end KaidaDB
