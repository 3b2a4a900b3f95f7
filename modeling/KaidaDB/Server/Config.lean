import Mathlib.Data.Rat.Defs
import KaidaDB.Api.Discovery
import KaidaDB.Storage.Engine

/-!
# Settings

`KaidaDbConfig` as `load` returns it. The data directory and the addresses are left out, and the settings
of the cache that nothing reads.
-/

namespace KaidaDB

/-- Default chunk size: 2 MiB. -/
def defaultChunkSize : Nat := 2 * 1024 * 1024

/-- Minimum chunk size: 1 MiB. -/
def minChunkSize : Nat := 1024 * 1024

/-- Maximum chunk size: 16 MiB. -/
def maxChunkSize : Nat := 16 * 1024 * 1024

structure StorageConfig where
  chunkSize : Nat := defaultChunkSize
  /-- Maximum size of a single stored object in bytes. `0` means unlimited. -/
  maxObjectSize : Nat := 50 * 1024 * 1024 * 1024
  durability : Durability := .sync
  /-- How often (seconds) to run garbage collection. `0` disables. -/
  gcIntervalSecs : Nat := 3600
  /-- Orphan chunks younger than this (seconds) are left alone. -/
  gcGraceSecs : Nat := 3600
  /-- Recompute and verify the full-object checksum on every read. -/
  verifyChecksumOnRead : Bool := false

structure CacheConfig where
  /-- Maximum cache size in bytes. -/
  maxSize : Nat := 512 * 1024 * 1024

structure KaidaDbConfig where
  storage : StorageConfig := {}
  cache : CacheConfig := {}
  streaming : PlaylistConfig ℚ := ⟨⟨"streams/"⟩, 4, "", true⟩

namespace KaidaDbConfig

def validate (config : KaidaDbConfig) : Except KaidaDbError Unit :=
  if config.storage.chunkSize < minChunkSize ∨ config.storage.chunkSize > maxChunkSize then
    .error (.config s!"chunk_size must be between {minChunkSize} and {maxChunkSize} bytes")
  else .ok ()

/-- The defaults are valid. -/
example : validate {} = .ok () := by decide

theorem chunkSize_bounds {config : KaidaDbConfig} (h : config.validate = .ok ()) :
    minChunkSize ≤ config.storage.chunkSize ∧ config.storage.chunkSize ≤ maxChunkSize := by
  unfold validate at h
  split_ifs at h with hbounds
  omega

/-- The engine with these settings. -/
def engine (config : KaidaDbConfig) : StorageEngine :=
  ⟨config.storage.chunkSize, config.storage.maxObjectSize, config.storage.verifyChecksumOnRead⟩

end KaidaDbConfig

end KaidaDB
