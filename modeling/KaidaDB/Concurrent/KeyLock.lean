import KaidaDB.Concurrent.Locks

/-!
# `key_lock`, step by step

Threads that call `key_lock` and clone or drop the mutexes they have got. The body of `key_lock` runs
under the guard of `key_locks`, one thread at a time, but `retain` looks at the counts one after the
other, and between any two of its steps the other threads clone and drop what they hold: only the table
is guarded. A handle may be held by a session or by a call, and a session goes from thread to thread,
so that it does not matter here by which.
-/

namespace KaidaDB

namespace KeyLock

open Std Locks

/-- Where the thread that has the guard of `key_locks` is. -/
inductive Phase where
  | start (key : String)
  /-- In `retain`, with these entries left. -/
  | retain (key : String) (todo : List String)
  /-- In `retain`, which has found that an entry is idle. -/
  | remove (key idle : String) (todo : List String)
  | entry (key : String)
  /-- The entry is there and is cloned. -/
  | clone (mutex : KeyMutex)
  /-- What is left to do is to drop the guard. -/
  | leave
deriving DecidableEq, Repr

structure System (T : Type) where
  /-- The mutex under each key of `key_locks`, as its serial. -/
  map : ExtTreeMap String Nat
  /-- How many mutexes have been made. -/
  made : Nat
  /-- The `Arc`s besides those in the map, each with the key that it was asked for. -/
  handles : List KeyMutex
  /-- The thread that has the guard. -/
  guard : Option (T × Phase)

inductive Event (T : Type) where
  /-- `self.key_locks.lock()` in a call of `key_lock`; the thread waits while another has the guard. -/
  | enter (t : T) (key : String)
  /-- The thread that has the guard goes on; `retain` takes the entries in any order. -/
  | advance (t : T) (next : Nat)
  | clone (i : Nat)
  | drop (i : Nat)
deriving DecidableEq, Repr

variable {T : Type}

def System.start : System T := ⟨∅, 0, [], none⟩

/-- `Arc::strong_count`. -/
def System.strongCount (s : System T) (serial : Nat) : Nat :=
  (s.map.toList.map Prod.snd).count serial + (s.handles.map KeyMutex.serial).count serial

def System.goes (s : System T) (t : T) (phase : Phase) : System T := { s with guard := some (t, phase) }

/-- A step of `key_lock`. -/
def System.advance (s : System T) (t : T) (next : Nat) : Phase → System T
  | .start key =>
    if 1024 < s.map.size then s.goes t (.retain key s.map.keys) else s.goes t (.entry key)
  | .retain key [] => s.goes t (.entry key)
  | .retain key todo =>
    match todo[next]? with
    | some looked =>
      match s.map[looked]? with
      | some serial =>
        if 1 < s.strongCount serial then s.goes t (.retain key (todo.eraseIdx next))
        else s.goes t (.remove key looked (todo.eraseIdx next))
      | none => s
    | none => s
  | .remove key idle todo => { s.goes t (.retain key todo) with map := s.map.erase idle }
  | .entry key =>
    match s.map[key]? with
    | some serial => s.goes t (.clone ⟨key, serial⟩)
    | none =>
      { s.goes t (.clone ⟨key, s.made⟩) with map := s.map.insert key s.made, made := s.made + 1 }
  | .clone mutex => { s.goes t .leave with handles := mutex :: s.handles }
  | .leave => { s with guard := none }

variable [DecidableEq T]

def System.step (s : System T) : Event T → System T
  | .enter t key =>
    match s.guard with
    | none => s.goes t (.start key)
    | some _ => s
  | .advance t next =>
    match s.guard with
    | some (u, phase) => if u = t then s.advance t next phase else s
    | none => s
  | .clone i =>
    match s.handles[i]? with
    | some mutex => { s with handles := mutex :: s.handles }
    | none => s
  | .drop i => { s with handles := s.handles.eraseIdx i }

def System.run (s : System T) : List (Event T) → System T
  | [] => s
  | e :: es => (s.step e).run es

end KeyLock

end KaidaDB
