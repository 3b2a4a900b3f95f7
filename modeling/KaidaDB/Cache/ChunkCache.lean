import KaidaDB.Common.Types
import KaidaDB.Lib.Lru

/-!
# The chunk cache

`ChunkCache`: chunk data by id, bounded by the bytes it may hold. The bytes are counted in
`currentSize`; the map below is an LRU with a bound of its own on the number of entries. Sizes are
`usize` in the source and subtracting more than is there panics (`subSize`); `CacheOp` and `run` are
sequences of calls.
-/

namespace KaidaDB

structure ChunkCache where
  maxSize : Nat
  cache : Lru ChunkId Bytes
  currentSize : Nat
  hits : Nat
  misses : Nat

structure CacheStats where
  hits : Nat
  misses : Nat
  currentSize : Nat
  maxSize : Nat
  entryCount : Nat
deriving DecidableEq, Repr

namespace ChunkCache

/-- The bound on the number of entries, for chunks of 2 MiB. -/
def estimatedEntries (maxSize : Nat) : Nat := max (maxSize / (2 * 1024 * 1024)) 64

theorem estimatedEntries_pos (maxSize : Nat) : 0 < estimatedEntries maxSize :=
  Nat.lt_of_lt_of_le (by decide) (Nat.le_max_right _ 64)

def new (maxSize : Nat) : ChunkCache where
  maxSize
  cache := .empty (estimatedEntries maxSize) (estimatedEntries_pos maxSize)
  currentSize := 0
  hits := 0
  misses := 0

/-- `size -= n`. -/
def subSize (size n : Nat) : Except Fail Nat :=
  if n ≤ size then .ok (size - n) else .error (.panic "attempt to subtract with overflow")

/-- Get a chunk from cache. -/
def get (c : ChunkCache) (chunkId : ChunkId) : Option Bytes × ChunkCache :=
  match c.cache.get chunkId with
  | (some data, cache) => (some data, { c with cache, hits := c.hits + 1 })
  | (none, cache) => (none, { c with cache, misses := c.misses + 1 })

/-- The loop of `insert` that makes room, for at most `n` iterations: each takes an entry out. -/
def evict (dataLen : Nat) : Nat → ChunkCache → Except Fail ChunkCache
  | 0, c => .ok c
  | n + 1, c =>
    if c.maxSize < c.currentSize + dataLen then
      match c.cache.popLru with
      | (some (_, evicted), cache) => do
        let currentSize ← subSize c.currentSize evicted.length
        evict dataLen n { c with cache, currentSize }
      | (none, _) => .ok c
    else .ok c

/-- Insert a chunk into the cache, evicting LRU entries if necessary. -/
def insert (c : ChunkCache) (chunkId : ChunkId) (data : Bytes) : Except Fail ChunkCache := do
  if c.maxSize < data.length then return c
  let c ← evict data.length c.cache.entries.length c
  let (replaced, cache) := c.cache.put chunkId data
  let currentSize ← subSize c.currentSize (replaced.elim 0 List.length)
  return { c with cache, currentSize := currentSize + data.length }

/-- Remove a chunk from the cache. -/
def invalidate (c : ChunkCache) (chunkId : ChunkId) : Except Fail ChunkCache := do
  let (removed, cache) := c.cache.pop chunkId
  let currentSize ← subSize c.currentSize (removed.elim 0 List.length)
  return { c with cache, currentSize }

def stats (c : ChunkCache) : CacheStats :=
  ⟨c.hits, c.misses, c.currentSize, c.maxSize, c.cache.entries.length⟩

/-! ## Runs -/

/-- A call on the cache. -/
inductive CacheOp where
  | get (id : ChunkId)
  | insert (id : ChunkId) (data : Bytes)
  | invalidate (id : ChunkId)
deriving DecidableEq, Repr

def step (c : ChunkCache) : CacheOp → Except Fail ChunkCache
  | .get id => .ok (c.get id).2
  | .insert id data => c.insert id data
  | .invalidate id => c.invalidate id

def run (c : ChunkCache) : List CacheOp → Except Fail ChunkCache
  | [] => .ok c
  | op :: ops => do (← c.step op).run ops

/-- The bytes of the entries in the cache. -/
def resident (c : ChunkCache) : Nat := c.cache.weight List.length

/-- The data last inserted for an id by a call that was not refused, unless the id was invalidated
after it; `last` is what there was before the calls. -/
def lastInserted (maxSize : Nat) (id : ChunkId) (last : Option Bytes) : List CacheOp → Option Bytes
  | [] => last
  | .get _ :: ops => lastInserted maxSize id last ops
  | .insert id' data :: ops =>
    lastInserted maxSize id (if id' = id ∧ data.length ≤ maxSize then some data else last) ops
  | .invalidate id' :: ops => lastInserted maxSize id (if id' = id then none else last) ops

/-- The call drops bytes that it does not count: an insertion that fits, under a new id, when the map
has reached its bound and the entry used least recently is not empty. -/
def DropsUncounted (c : ChunkCache) : CacheOp → Prop
  | .insert id data => c.currentSize + data.length ≤ c.maxSize ∧
      ∃ p ∈ c.cache.victim? id, p.2 ≠ []
  | _ => False

/-- No call of a run drops bytes that it does not count. -/
def CountedRun : ChunkCache → List CacheOp → Prop
  | _, [] => True
  | c, op :: ops => ¬ c.DropsUncounted op ∧ ∀ c' ∈ (c.step op).toOption, c'.CountedRun ops

end ChunkCache

end KaidaDB
