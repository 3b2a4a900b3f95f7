import KaidaDB.Concurrent.KeyLock
import KaidaDB.Lib.FinMap

/-!
# One mutex for each key

Whoever holds a mutex of a key holds the one that is in the table (`Inv.held`). An entry is removed only
if the count of its mutex has been one, and then nobody holds it, and nobody gets it before it is
removed: other threads clone only what they hold, and to get it from the table takes the guard. So two
mutexes that are held are the same exactly if they were asked for with the same key
(`one_mutex_per_key`). With no other thread between its steps `key_lock` is `KeyLocks.lookup`
(`uninterrupted`).
-/

namespace KaidaDB

namespace KeyLock

open Std Locks

variable {T : Type} {s : System T} {t : T} {key : String} {serial : Nat}

/-! ## The invariant -/

/-- What the thread that has the guard has found is still so. -/
def Phase.Fits (s : System T) : Phase → Prop
  | .remove _ idle _ => ∀ m ∈ s.handles, m.key ≠ idle
  | .clone mutex => s.map[mutex.key]? = some mutex.serial
  | _ => True

structure Inv (s : System T) : Prop where
  made : ∀ (key : String) (serial : Nat), s.map[key]? = some serial → serial < s.made
  apart : ∀ (key key' : String) (serial : Nat),
    s.map[key]? = some serial → s.map[key']? = some serial → key = key'
  held : ∀ m ∈ s.handles, s.map[m.key]? = some m.serial
  guard : ∀ t phase, s.guard = some (t, phase) → phase.Fits s

theorem inv_start : Inv (System.start : System T) where
  made key serial h := by simp [System.start] at h
  apart key key' serial h := by simp [System.start] at h
  held := nofun
  guard := nofun

theorem Inv.goes (h : Inv s) {phase : Phase} (hfits : phase.Fits s) : Inv (s.goes t phase) where
  made := h.made
  apart := h.apart
  held := h.held
  guard u phase' hg := by
    obtain ⟨-, rfl⟩ := Prod.mk.inj (Option.some.inj hg)
    cases phase <;> exact hfits

/-! ## Counts -/

theorem count_values (h : Inv s) (hkey : s.map[key]? = some serial) :
    (s.map.toList.map Prod.snd).count serial = 1 := by
  have hothers : serial ∉ (s.map.erase key).toList.map Prod.snd := by
    intro hmem
    obtain ⟨⟨key', _⟩, hentry, rfl⟩ := List.mem_map.1 hmem
    rw [ExtTreeMap.mem_toList_iff_getElem?_eq_some, FinMap.get_erase] at hentry
    split_ifs at hentry with heq
    exact heq (h.apart _ _ _ hkey hentry)
  rw [((FinMap.toList_perm hkey).map Prod.snd).count_eq, List.map_cons, List.count_cons_self,
    List.count_eq_zero_of_not_mem hothers]

/-- An entry is idle if nobody holds its mutex. -/
theorem one_lt_strongCount (h : Inv s) (hkey : s.map[key]? = some serial) :
    1 < s.strongCount serial ↔ ⟨key, serial⟩ ∈ s.handles := by
  rw [System.strongCount, count_values h hkey, Nat.lt_add_right_iff_pos, List.count_pos_iff,
    List.mem_map]
  constructor
  · rintro ⟨m, hm, rfl⟩
    rwa [h.apart key m.key m.serial hkey (h.held m hm)]
  · exact fun hm => ⟨_, hm, rfl⟩

theorem idle (h : Inv s) (hkey : s.map[key]? = some serial) (hcount : ¬ 1 < s.strongCount serial) :
    ∀ m ∈ s.handles, m.key ≠ key := by
  rintro m hm rfl
  have hserial := (h.held m hm).symm.trans hkey
  rw [one_lt_strongCount h hkey, ← Option.some.inj hserial] at hcount
  exact hcount hm

/-! ## Steps -/

/-- Nobody holds a mutex of the key whose entry goes. -/
theorem Inv.remove (h : Inv s) (hidle : ∀ m ∈ s.handles, m.key ≠ key) {todo : List String} {k : String} :
    Inv { s.goes t (.retain k todo) with map := s.map.erase key } where
  made key' serial hget := by
    rw [FinMap.get_erase] at hget
    split_ifs at hget
    exact h.made _ _ hget
  apart key' key'' serial hget hget' := by
    rw [FinMap.get_erase] at hget hget'
    split_ifs at hget hget'
    exact h.apart _ _ _ hget hget'
  held m hm := by
    rw [FinMap.get_erase, if_neg (hidle m hm).symm]
    exact h.held m hm
  guard u phase hg := by
    obtain ⟨-, rfl⟩ := Prod.mk.inj (Option.some.inj hg)
    trivial

/-- A new mutex is put where there was none. -/
theorem Inv.insert (h : Inv s) (hnone : s.map[key]? = none) :
    Inv { s.goes t (.clone ⟨key, s.made⟩) with
      map := s.map.insert key s.made, made := s.made + 1 } where
  made key' serial hget := by
    rw [FinMap.get_insert] at hget
    split_ifs at hget
    · exact Option.some.inj hget ▸ Nat.lt_succ_self _
    · exact Nat.lt_succ_of_lt (h.made _ _ hget)
  apart key' key'' serial hget hget' := by
    rw [FinMap.get_insert] at hget hget'
    split_ifs at hget hget' with hk hk' hk'
    · exact hk.symm.trans hk'
    · exact absurd (h.made _ _ hget') (Option.some.inj hget ▸ Nat.lt_irrefl _)
    · exact absurd (h.made _ _ hget) (Option.some.inj hget' ▸ Nat.lt_irrefl _)
    · exact h.apart _ _ _ hget hget'
  held m hm := by
    have hheld := h.held m hm
    rw [FinMap.get_insert, if_neg]
    · exact hheld
    · rintro rfl
      exact absurd (hheld.symm.trans hnone) nofun
  guard u phase hg := by
    obtain ⟨-, rfl⟩ := Prod.mk.inj (Option.some.inj hg)
    show (s.map.insert key s.made)[key]? = some s.made
    rw [FinMap.get_insert, if_pos rfl]

theorem Inv.advance (h : Inv s) (next : Nat) (phase : Phase) (hfits : phase.Fits s) :
    Inv (s.advance t next phase) := by
  cases phase with
  | start key =>
    unfold System.advance
    split_ifs
    · exact h.goes trivial
    · exact h.goes trivial
  | retain key todo =>
    cases todo with
    | nil => exact h.goes trivial
    | cons first rest =>
      unfold System.advance
      dsimp only
      cases (first :: rest)[next]? with
      | none => exact h
      | some looked =>
        dsimp only
        cases hget : s.map[looked]? with
        | none => exact h
        | some serial =>
          dsimp only
          split_ifs with hcount
          · exact h.goes trivial
          · exact h.goes (idle h hget hcount)
  | remove key idle todo => exact h.remove hfits
  | entry key =>
    unfold System.advance
    dsimp only
    cases hget : s.map[key]? with
    | none => exact h.insert hget
    | some serial =>
      have hfits : (Phase.clone ⟨key, serial⟩).Fits s := hget
      exact h.goes hfits
  | clone mutex =>
    refine ⟨h.made, h.apart, List.forall_mem_cons.2 ⟨hfits, h.held⟩, fun u phase hg => ?_⟩
    obtain ⟨-, rfl⟩ := Prod.mk.inj (Option.some.inj hg)
    trivial
  | leave => exact ⟨h.made, h.apart, h.held, nofun⟩

/-- Mutexes that are all held already, or fewer of them, change nothing for the table. -/
theorem Inv.handles (h : Inv s) {handles : List KeyMutex} (hsub : ∀ m ∈ handles, m ∈ s.handles) :
    Inv { s with handles } where
  made := h.made
  apart := h.apart
  held m hm := h.held m (hsub m hm)
  guard u phase hg := by
    have hfits := h.guard u phase hg
    cases phase with
    | remove key idle todo => exact fun m hm => hfits m (hsub m hm)
    | _ => exact hfits

variable [DecidableEq T]

theorem Inv.step (h : Inv s) (e : Event T) : Inv (s.step e) := by
  cases e with
  | enter t key =>
    unfold System.step
    cases s.guard with
    | none => exact h.goes trivial
    | some _ => exact h
  | advance t next =>
    unfold System.step
    cases hg : s.guard with
    | none => exact h
    | some inside =>
      obtain ⟨u, phase⟩ := inside
      dsimp only
      split_ifs
      · exact h.advance next phase (h.guard u phase hg)
      · exact h
  | clone i =>
    unfold System.step
    dsimp only
    cases hi : s.handles[i]? with
    | none => exact h
    | some mutex =>
      exact h.handles (List.forall_mem_cons.2 ⟨List.mem_of_getElem? hi, fun _ hm => hm⟩)
  | drop i => exact h.handles fun m hm => List.mem_of_mem_eraseIdx hm

theorem Inv.run (es : List (Event T)) : ∀ {s : System T}, Inv s → Inv (s.run es) := by
  induction es with
  | nil => exact fun h => h
  | cons e es ih => exact fun h => ih (h.step e)

/-- Two mutexes that are held are the same exactly if they were asked for with the same key. -/
theorem one_mutex_per_key (es : List (Event T)) :
    ∀ m ∈ (System.start.run es).handles, ∀ m' ∈ (System.start.run es).handles,
      m.serial = m'.serial ↔ m.key = m'.key := by
  have h : Inv (System.start.run es) := inv_start.run es
  intro m hm m' hm'
  have hheld := h.held m hm
  have hheld' := h.held m' hm'
  constructor
  · intro heq
    rw [heq] at hheld
    exact h.apart _ _ _ hheld hheld'
  · intro heq
    rw [heq] at hheld
    exact Option.some.inj (hheld.symm.trans hheld')

/-- Two threads ask for the mutex of a key, one after the other. -/
def askedTwice : List (Event Nat) :=
  .enter 0 "a" :: List.replicate 4 (.advance 0 0) ++ .enter 1 "a" :: List.replicate 4 (.advance 1 0)

theorem one_mutex_per_key_askedTwice : ∃ m m', [m, m'] = (System.start.run askedTwice).handles ∧
    (m.serial = m'.serial ↔ m.key = m'.key) := by
  have hhandles : (System.start.run askedTwice).handles = [⟨"a", 0⟩, ⟨"a", 0⟩] := by decide
  refine ⟨_, _, hhandles.symm, one_mutex_per_key askedTwice _ ?_ _ ?_⟩ <;> simp [hhandles]

/-! ## One call alone -/

theorem run_replicate_succ (e : Event T) (n : Nat) :
    s.run (List.replicate (n + 1) e) = (s.step e).run (List.replicate n e) := rfl

theorem step_advance {phase : Phase} (hg : s.guard = some (t, phase)) (next : Nat) :
    s.step (.advance t next) = s.advance t next phase := by
  unfold System.step
  rw [hg]
  exact if_pos rfl

/-- `retain` keeps the entries whose mutexes are held. -/
theorem retain_run (todo : List String) : ∀ {s : System T}, Inv s →
    s.guard = some (t, .retain key todo) → todo.Nodup → (∀ k ∈ todo, (s.map[k]?).isSome) →
    ∃ (n : Nat) (map : ExtTreeMap String Nat),
      s.run (List.replicate n (.advance t 0)) = { s.goes t (.entry key) with map } ∧
      ∀ (k : String) (serial : Nat), map[k]? = some serial ↔
        s.map[k]? = some serial ∧ (k ∈ todo → ⟨k, serial⟩ ∈ s.handles) := by
  induction todo with
  | nil =>
    intro s h hg _ _
    refine ⟨1, s.map, ?_, fun k serial => ⟨fun hget => ⟨hget, nofun⟩, And.left⟩⟩
    rw [run_replicate_succ, step_advance hg]
    rfl
  | cons looked rest ih =>
    intro s h hg hnodup hmem
    obtain ⟨hnot, hnodup⟩ := List.nodup_cons.1 hnodup
    obtain ⟨hsome, hmem⟩ := List.forall_mem_cons.1 hmem
    obtain ⟨serial, hget⟩ := Option.isSome_iff_exists.1 hsome
    have hstep := step_advance hg 0
    unfold System.advance at hstep
    simp only [List.getElem?_cons_zero, hget, List.eraseIdx_cons_zero, one_lt_strongCount h hget] at hstep
    by_cases hheld : ⟨looked, serial⟩ ∈ s.handles
    · rw [if_pos hheld] at hstep
      have hfits : (Phase.retain key rest).Fits s := trivial
      obtain ⟨n, map, hrun, hmap⟩ := ih (h.goes (t := t) hfits) rfl hnodup hmem
      refine ⟨n + 1, map, ?_, fun k serial' => ?_⟩
      · rw [run_replicate_succ, hstep, hrun]
        rfl
      · rw [hmap]
        refine and_congr_right fun hget' => ⟨fun hrest hk => ?_, fun hall hk => hall (.tail _ hk)⟩
        rcases List.mem_cons.1 hk with rfl | hk
        · rwa [Option.some.inj (hget'.symm.trans hget)]
        · exact hrest hk
    · rw [if_neg hheld] at hstep
      have hidle : ∀ m ∈ s.handles, m.key ≠ looked :=
        idle h hget (mt (one_lt_strongCount h hget).1 hheld)
      have herase : ∀ k ∈ rest, ((s.map.erase looked)[k]?).isSome := by
        intro k hk
        rw [FinMap.get_erase, if_neg]
        · exact hmem k hk
        · rintro rfl
          exact hnot hk
      obtain ⟨n, map, hrun, hmap⟩ := ih (h.remove (t := t) (k := key) hidle) rfl hnodup herase
      refine ⟨n + 2, map, ?_, fun k serial' => ?_⟩
      · rw [run_replicate_succ, hstep, run_replicate_succ, step_advance rfl]
        exact hrun
      · rw [hmap]
        dsimp only
        rw [FinMap.get_erase]
        constructor
        · rintro ⟨hget', hrest⟩
          split_ifs at hget' with hk
          exact ⟨hget', fun hk' => hrest ((List.mem_cons.1 hk').resolve_left (Ne.symm hk))⟩
        · rintro ⟨hget', hall⟩
          have hk : looked ≠ k := by
            rintro rfl
            exact hidle _ (hall List.mem_cons_self) rfl
          exact ⟨(if_neg hk).trans hget', fun hk' => hall (.tail _ hk')⟩

theorem run_append (es fs : List (Event T)) : ∀ s : System T, s.run (es ++ fs) = (s.run es).run fs := by
  induction es with
  | nil => exact fun _ => rfl
  | cons e es ih => exact fun s => ih (s.step e)

/-- The rest of a call that has found its mutex. -/
theorem clone_run {mutex : KeyMutex} (hg : s.guard = some (t, .clone mutex)) :
    s.run (List.replicate 2 (.advance t 0)) = ⟨s.map, s.made, mutex :: s.handles, none⟩ := by
  rw [run_replicate_succ, step_advance hg, run_replicate_succ, step_advance rfl]
  rfl

theorem entry_some_run (hg : s.guard = some (t, .entry key)) (hget : s.map[key]? = some serial) :
    s.run (List.replicate 3 (.advance t 0)) =
      ⟨s.map, s.made, ⟨key, serial⟩ :: s.handles, none⟩ := by
  have hentry : s.advance t 0 (.entry key) = s.goes t (.clone ⟨key, serial⟩) := by
    unfold System.advance
    dsimp only
    rw [hget]
  rw [run_replicate_succ, step_advance hg, hentry, clone_run rfl]
  rfl

theorem entry_none_run (hg : s.guard = some (t, .entry key)) (hget : s.map[key]? = none) :
    s.run (List.replicate 3 (.advance t 0)) =
      ⟨s.map.insert key s.made, s.made + 1, ⟨key, s.made⟩ :: s.handles, none⟩ := by
  have hentry : s.advance t 0 (.entry key) = { s.goes t (.clone ⟨key, s.made⟩) with
      map := s.map.insert key s.made, made := s.made + 1 } := by
    unfold System.advance
    dsimp only
    rw [hget]
  rw [run_replicate_succ, step_advance hg, hentry, clone_run rfl]
  rfl

/-- The pruning removes the entries whose mutexes nobody holds, if there are many entries. -/
theorem prune_run (h : Inv s) (hg : s.guard = some (t, .start key)) :
    ∃ (n : Nat) (map : ExtTreeMap String Nat),
      s.run (List.replicate n (.advance t 0)) = { s.goes t (.entry key) with map } ∧
      ∀ (k : String) (serial : Nat), map[k]? = some serial ↔
        s.map[k]? = some serial ∧ (1024 < s.map.size → ⟨k, serial⟩ ∈ s.handles) := by
  have hstep := step_advance hg 0
  unfold System.advance at hstep
  dsimp only at hstep
  split_ifs at hstep with hsize
  · have hfits : (Phase.retain key s.map.keys).Fits s := trivial
    have hmem : ∀ k ∈ s.map.keys, (s.map[k]?).isSome := by
      intro k hk
      rw [← ExtTreeMap.mem_iff_isSome_getElem?]
      exact ExtTreeMap.mem_of_mem_keys hk
    obtain ⟨n, map, hrun, hmap⟩ := retain_run s.map.keys (h.goes (t := t) hfits) rfl
      ExtTreeMap.nodup_keys hmem
    refine ⟨n + 1, map, ?_, fun k serial => ?_⟩
    · rw [run_replicate_succ, hstep, hrun]
      rfl
    · rw [hmap]
      refine and_congr_right fun hget =>
        ⟨fun hheld _ => hheld (ExtTreeMap.mem_keys.2 ?_), fun hheld _ => hheld hsize⟩
      rw [ExtTreeMap.mem_iff_isSome_getElem?]
      exact Option.isSome_of_eq_some hget
  · refine ⟨1, s.map, ?_, fun k serial => ⟨fun hget => ⟨hget, fun h => absurd h hsize⟩, And.left⟩⟩
    rw [run_replicate_succ, hstep]
    rfl

/-- With no other thread between its steps, `key_lock` is `lookup`. -/
theorem uninterrupted (h : Inv s) (hg : s.guard = none) (t : T) (key : String) (sessions : List KeyMutex) :
    ∃ n, s.run (.enter t key :: List.replicate n (.advance t 0)) =
      let after := (KeyLocks.lookup ⟨s.map, s.made, s.handles, sessions⟩ key).2
      ⟨after.map, after.made, after.clones, none⟩ := by
  have henter : s.step (.enter t key) = s.goes t (.start key) := by
    unfold System.step
    rw [hg]
  have hfits : (Phase.start key).Fits s := trivial
  obtain ⟨n, map, hprune, hmap⟩ := prune_run (h.goes (t := t) hfits) rfl
  refine ⟨n + 3, ?_⟩
  show (s.step (.enter t key)).run _ = _
  rw [henter, List.replicate_add, run_append, hprune]
  unfold KeyLocks.lookup
  dsimp only
  generalize hpruned : (if 1024 < s.map.size then _ else s.map) = pruned
  have hsame : pruned = map := by
    refine FinMap.ext_get fun k => Option.ext fun serial => ?_
    rw [hmap, ← hpruned]
    split_ifs with hsize
    · rw [ExtTreeMap.getElem?_filter', Option.filter_eq_some_iff, decide_eq_true_iff]
      exact and_congr_right fun _ => (imp_iff_right hsize).symm
    · exact ⟨fun hget => ⟨hget, fun h => absurd h hsize⟩, And.left⟩
  subst hsame
  cases hget : pruned[key]? with
  | some serial => exact entry_some_run (s := { s.goes t (.entry key) with map := pruned }) rfl hget
  | none => exact entry_none_run (s := { s.goes t (.entry key) with map := pruned }) rfl hget

end KeyLock

end KaidaDB
