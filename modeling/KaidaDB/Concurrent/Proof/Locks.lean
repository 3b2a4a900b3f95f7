import Mathlib.Data.Prod.Lex
import Mathlib.Data.String.Basic
import KaidaDB.Concurrent.Locks

/-!
# The order of the locks

The mutexes of keys come first, in the order of their keys; `chunk_ref_lock` comes after them, then
`compact_lock`, and last the locks under which no other is taken. Every function takes only locks that
come after those it is called with (`Tidy`), so no set of threads waits for itself
(`calls_cannot_deadlock`).
-/

namespace KaidaDB

namespace Locks

open LockOrder

def Lock.rank : Lock → Nat
  | .key _ => 0
  | .chunkRefLock => 1
  | .compactLock => 2
  | .keyLocks | .state | .logFile => 3

/-- The place of a lock in the order; among mutexes of keys it is that of the key. -/
def Lock.place (lock : Lock) : Nat ×ₗ String :=
  toLex (lock.rank, match lock with
    | .key mutex => mutex.key
    | _ => "")

/-- The order of the locks. -/
def Lock.Before : Lock → Lock → Prop := Order.Preimage Lock.place (· < ·)

instance : IsStrictOrder Lock Lock.Before :=
  inferInstanceAs (IsStrictOrder Lock (Order.Preimage Lock.place (· < ·)))

theorem before_of_rank {a b : Lock} (h : a.rank < b.rank) : a.Before b :=
  Prod.Lex.toLex_lt_toLex.2 (.inl h)

theorem before_of_key {m n : KeyMutex} (h : m.key < n.key) : (Lock.key m).Before (.key n) :=
  Prod.Lex.toLex_lt_toLex.2 (.inr ⟨rfl, h⟩)

/-- All locks held come before rank `n`. -/
def Below (n : Nat) (held : List (Bool × Lock)) : Prop := ∀ h ∈ held, h.2.rank < n

theorem Below.mono {m n : Nat} {held : List (Bool × Lock)} (h : Below m held) (hmn : m ≤ n) :
    Below n held := fun a ha => Nat.lt_of_lt_of_le (h a ha) hmn

theorem Below.cons {n : Nat} {held : List (Bool × Lock)} {shared : Bool} {lock : Lock}
    (h : Below n held) (hlock : lock.rank < n) : Below n ((shared, lock) :: held) :=
  List.forall_mem_cons.2 ⟨hlock, h⟩

/-- Called with the locks `held`, the function takes only locks that come after them, and releases what
it takes. -/
def Tidy {α : Type} (held : List (Bool × Lock)) (x : LM α) : Prop :=
  x.run.Orderly Lock.Before held held

section
variable {α β : Type} {held : List (Bool × Lock)}

theorem tidy_pure (a : α) : Tidy held (pure a : LM α) := rfl

theorem tidy_throw : Tidy held (throw () : LM α) := rfl

theorem Tidy.bind {x : LM α} {f : α → LM β} (hx : Tidy held x) (hf : ∀ a, Tidy held (f a)) :
    Tidy held (x >>= f) := by
  refine Prog.Orderly.bind hx fun r => ?_
  cases r with
  | ok a => exact hf a
  | error e => rfl

theorem tidy_ask (query : Query) : Tidy held (ask query) := fun _ => rfl

theorem tidy_data : Tidy held data := tidy_ask _

theorem tidy_mayFail : Tidy held mayFail := by
  refine tidy_data.bind fun n => ?_
  split_ifs
  · exact tidy_throw
  · exact tidy_pure ()

theorem tidy_guard {shared : Bool} {lock : Lock} {body : LM α}
    (hlock : ∀ h ∈ held, h.2.Before lock) (hbody : Tidy ((shared, lock) :: held) body) :
    Tidy held (ExceptT.mk (Prog.locked shared lock body.run)) :=
  Prog.Orderly.locked hlock hbody

/-- A lock that comes after all of a lower rank. -/
theorem tidy_locked {n : Nat} {lock : Lock} {body : LM α} (h : Below n held) (hn : n ≤ lock.rank)
    (hbody : Tidy ((false, lock) :: held) body) : Tidy held (locked lock body) :=
  tidy_guard (fun a ha => before_of_rank (Nat.lt_of_lt_of_le (h a ha) hn)) hbody

theorem tidy_reading {n : Nat} {lock : Lock} {body : LM α} (h : Below n held) (hn : n ≤ lock.rank)
    (hbody : Tidy ((true, lock) :: held) body) : Tidy held (reading lock body) :=
  tidy_guard (fun a ha => before_of_rank (Nat.lt_of_lt_of_le (h a ha) hn)) hbody

theorem tidy_ignoreError {x : LM Unit} (h : Tidy held x) : Tidy held (ignoreError x) :=
  Prog.Orderly.bind (Prog.Orderly.bind h fun _ => rfl) fun _ => rfl

theorem tidy_tryLocked {lock : Lock} {x : LM Unit} (h : Tidy ((false, lock) :: held) x) :
    Tidy held (tryLocked lock x) :=
  Prog.Orderly.bind (Prog.Orderly.lockedIfFree (Prog.Orderly.bind h fun _ => rfl)) fun _ => rfl

theorem tidy_owning {mutex : KeyMutex} {x : LM α} (h : Tidy held x) : Tidy held (owning mutex x) :=
  Prog.Orderly.bind h fun _ _ => rfl

theorem tidy_times {x : LM Unit} (h : Tidy held x) (n : Nat) : Tidy held (times x n) := by
  induction n with
  | zero => exact tidy_pure ()
  | succ n ih => exact h.bind fun _ => ih

end

/-! ## The index -/

section
variable {held : List (Bool × Lock)}

theorem tidy_appendEntry (h : Below 3 held) : Tidy held appendEntry :=
  tidy_mayFail.bind fun _ => tidy_locked h (by decide)
    (tidy_mayFail.bind fun _ => tidy_mayFail.bind fun _ => tidy_mayFail)

theorem tidy_compact (h : Below 3 held) : Tidy held compact :=
  (tidy_reading h (by decide) tidy_mayFail).bind fun _ => tidy_mayFail.bind fun _ => tidy_mayFail.bind fun _ =>
    tidy_locked h (by decide) (tidy_pure ())

theorem tidy_maybeCompact (h : Below 3 held) : Tidy held maybeCompact := by
  have hcompact : Tidy held (tryLocked .compactLock compact) :=
    tidy_tryLocked (tidy_compact (h.cons (by decide)))
  refine tidy_data.bind fun n => ?_
  split_ifs
  · exact tidy_pure ()
  · refine (tidy_reading h (by decide) tidy_data).bind fun live => tidy_data.bind fun m => ?_
    split_ifs
    · exact tidy_pure ()
    · exact hcompact

/-- An append, the change in memory and what follows it. -/
theorem tidy_change {rest : Unit → LM Unit} (h : Below 3 held) (hrest : ∀ u, Tidy held (rest u)) :
    Tidy held (appendEntry >>= fun _ => locked .state (pure ()) >>= rest) :=
  (tidy_appendEntry h).bind fun _ => (tidy_locked h (by decide) (tidy_pure ())).bind hrest

theorem tidy_putManifest (h : Below 3 held) : Tidy held putManifest :=
  tidy_change h fun _ => tidy_maybeCompact h

theorem tidy_deleteManifest (h : Below 3 held) : Tidy held deleteManifest :=
  tidy_change h fun _ => tidy_maybeCompact h

theorem tidy_getManifest (h : Below 3 held) : Tidy held getManifest := by
  refine tidy_reading h (by decide) (tidy_data.bind fun n => ?_)
  cases n with
  | zero => exact tidy_pure none
  | succ n => exact tidy_pure (some n)

theorem tidy_putChunkLocation (h : Below 3 held) : Tidy held putChunkLocation :=
  (tidy_appendEntry h).bind fun _ => tidy_locked h (by decide) (tidy_pure ())

theorem tidy_deleteChunkLocation (h : Below 3 held) : Tidy held deleteChunkLocation :=
  (tidy_appendEntry h).bind fun _ => tidy_locked h (by decide) (tidy_pure ())

theorem tidy_addChunkRef (h : Below 1 held) : Tidy held addChunkRef := by
  have h3 : Below 3 ((false, Lock.chunkRefLock) :: held) := (h.mono (by decide)).cons (by decide)
  exact tidy_locked h (by decide)
    ((tidy_reading h3 (by decide) (tidy_pure ())).bind fun _ => tidy_putChunkLocation h3)

theorem tidy_decrementChunkRef (h : Below 1 held) : Tidy held decrementChunkRef := by
  have h3 : Below 3 ((false, Lock.chunkRefLock) :: held) := (h.mono (by decide)).cons (by decide)
  refine tidy_locked h (by decide) ((tidy_reading h3 (by decide) tidy_data).bind fun count => ?_)
  split
  · exact tidy_pure false
  · exact (tidy_deleteChunkLocation h3).bind fun _ => tidy_pure true
  · exact (tidy_putChunkLocation h3).bind fun _ => tidy_pure false

end

/-! ## The engine -/

theorem below_nil (n : Nat) : Below n [] := fun _ h => by cases h

/-- The mutex that is looked up is one for the key. -/
theorem tidy_keyLock {α : Type} {key : String} {f : KeyMutex → LM α}
    (hf : ∀ serial, Tidy [] (f ⟨key, serial⟩)) : Tidy [] (keyLock key >>= f) := by
  have hrelease : ∀ serial, Prog.Orderly Lock.Before [] [(false, .keyLocks)]
      (Prog.release false Lock.keyLocks (f ⟨key, serial⟩).run) := fun serial => ⟨[], rfl, hf serial⟩
  exact And.intro (fun h hh => by cases hh) hrelease

/-- No lock of a higher rank than those of keys is held. -/
theorem below_key (mutex : KeyMutex) {held : List (Bool × Lock)} (h : Below 1 held) :
    Below 1 ((false, Lock.key mutex) :: held) := h.cons Nat.one_pos

section
variable {held : List (Bool × Lock)} (h : Below 1 held)
include h

theorem tidy_flushChunk : Tidy held flushChunk := by
  refine tidy_data.bind fun n => ?_
  split_ifs
  · exact tidy_pure ()
  · exact tidy_mayFail.bind fun _ => tidy_addChunkRef h

theorem tidy_releaseReplaced : Tidy held releaseReplaced := by
  refine (tidy_decrementChunkRef h).bind fun last => ?_
  split_ifs
  · exact tidy_ignoreError tidy_mayFail
  · exact tidy_pure ()

theorem tidy_releaseDeleted : Tidy held releaseDeleted := by
  refine (tidy_decrementChunkRef h).bind fun last => ?_
  split_ifs
  · exact tidy_mayFail
  · exact tidy_pure ()

theorem tidy_releaseAborted : Tidy held releaseAborted := by
  refine tidy_ignoreError ((tidy_decrementChunkRef h).bind fun last => ?_)
  split_ifs
  · exact tidy_ignoreError tidy_mayFail
  · exact tidy_pure ()

end

theorem tidy_finish (mutex : KeyMutex) : Tidy [] (finish mutex) := by
  have h1 := below_key mutex (below_nil 1)
  have h3 := h1.mono (show 1 ≤ 3 by decide)
  refine (tidy_ask _).bind fun _ => tidy_owning ((tidy_flushChunk (below_nil 1)).bind fun _ =>
    (tidy_ask _).bind fun _ => tidy_owning (tidy_locked (below_nil 0) (Nat.le_refl 0) ?_))
  refine (tidy_getManifest h3).bind fun previous => (tidy_putManifest h3).bind fun _ => ?_
  cases previous with
  | none => exact tidy_pure ()
  | some chunks => exact tidy_times (tidy_releaseReplaced h1) chunks

theorem tidy_delete (key : String) : Tidy [] (delete key) := by
  refine tidy_keyLock fun serial => tidy_owning (tidy_locked (below_nil 0) (Nat.le_refl 0) ?_)
  have h1 := below_key ⟨key, serial⟩ (below_nil 1)
  have h3 := h1.mono (show 1 ≤ 3 by decide)
  refine (tidy_getManifest h3).bind fun found => ?_
  cases found with
  | none => exact tidy_pure false
  | some chunks =>
    exact (tidy_times (tidy_releaseDeleted h1) chunks).bind fun _ =>
      (tidy_deleteManifest h3).bind fun _ => tidy_pure true

theorem firstLock_lt {fromKey toKey : String} (h : fromKey ≠ toKey) :
    firstLock fromKey toKey < secondLock fromKey toKey := by
  unfold firstLock secondLock
  split_ifs with hlt
  · exact hlt
  · exact lt_of_le_of_ne (not_lt.1 hlt) h.symm

/-- **`rename` takes the two mutexes in the order of their keys.** -/
theorem tidy_rename (fromKey toKey : String) : Tidy [] (rename fromKey toKey) := by
  refine tidy_mayFail.bind fun _ => ?_
  split_ifs with hsame
  · exact tidy_throw
  refine tidy_keyLock fun a => tidy_owning (tidy_keyLock fun b => tidy_owning
    (tidy_locked (below_nil 0) (Nat.le_refl 0) (tidy_guard (fun h hh => ?_) ?_)))
  · rw [List.mem_singleton.1 hh]
    exact before_of_key (firstLock_lt hsame)
  have h1 := below_key ⟨secondLock fromKey toKey, b⟩
    (below_key ⟨firstLock fromKey toKey, a⟩ (below_nil 1))
  have h3 := h1.mono (show 1 ≤ 3 by decide)
  refine (tidy_getManifest h3).bind fun manifest => ?_
  split_ifs
  · exact tidy_throw
  refine (tidy_getManifest h3).bind fun existing => ?_
  split_ifs
  · exact tidy_throw
  exact (tidy_putManifest h3).bind fun _ => tidy_deleteManifest h3

theorem tidy_call (call : LockingCall) : Tidy [] call.run := by
  cases call with
  | beginStore key =>
    exact tidy_mayFail.bind fun _ => tidy_keyLock fun _ => (tidy_ask _).bind fun _ => tidy_pure ()
  | write => exact tidy_mayFail.bind fun _ => tidy_data.bind fun n =>
      tidy_times (tidy_flushChunk (below_nil 1)) n
  | finish mutex => exact tidy_finish mutex
  | abort mutex => exact (tidy_ask _).bind fun _ => tidy_owning (tidy_data.bind fun n =>
      tidy_times (tidy_releaseAborted (below_nil 1)) n)
  | dropSession mutex => exact (tidy_ask _).bind fun _ => tidy_owning (tidy_pure ())
  | delete key => exact (tidy_delete key).bind fun _ => tidy_pure ()
  | rename fromKey toKey => exact tidy_rename fromKey toKey
  | look => exact (tidy_getManifest (below_nil 3)).bind fun _ => tidy_pure ()
  | compact => exact tidy_compact (below_nil 3)

/-- **Calls cannot deadlock.** Whatever calls any number of threads make, and however their steps
interleave, there is never a set of threads each of which waits for a lock that one of them holds. -/
theorem calls_cannot_deadlock (T : Type) [DecidableEq T] (events : List (Event T LockingCall))
    (S : Set T) :
    ¬ ((System.start KeyLocks.empty).run LockingCall.program answer events).Deadlock S :=
  have hcalls : ∀ call, (LockingCall.program call).Orderly Lock.Before [] [] :=
    fun call => Prog.Orderly.bind (tidy_call call) fun _ => rfl
  System.no_deadlock LockingCall.program answer hcalls KeyLocks.empty events S

/-- One thread holds the mutex of "a" and another one waits for it. -/
def crossing : List (Event Nat LockingCall) :=
  [.start 0 (.rename "a" "b"), .start 1 (.rename "b" "a")] ++ List.replicate 8 (.go 0 1)
    ++ List.replicate 8 (.go 1 1)

example : (((System.start KeyLocks.empty).run LockingCall.program answer crossing).thread 1).awaits
    = some (.key ⟨"a", 0⟩) := by decide +kernel

end Locks

end KaidaDB
