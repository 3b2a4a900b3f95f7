import Mathlib.Data.Stream.Defs
import KaidaDB.Storage.Log

/-!
# The data directory and the programs that run on it

`Store` is what the engine's functions read and change: the index in memory, the index log at
`log_path` with the handle open on it, the chunk files by their hex name, the clock, and how the
coming operations on the file system go (`io`). Each append to the log, each chunk write and each
removal takes one `IoPlan` off the front of `io`; `IoPlan.ok` goes well, and a plan that fails
everything from some point on is a process that has stopped there: no later operation reaches
the disk. Functions are `M` programs, which keep their effects when they fail.
-/

namespace KaidaDB

open Std

/-! ## Failures -/

/-- How an append to the log fails. -/
inductive AppendFault where
  /-- Writing fails after `n` bytes of the line; past its end, it is `flush` that fails. -/
  | write (n : Nat)
  /-- The line is written and `sync_data` fails. -/
  | sync
deriving DecidableEq, Repr

/-- How a compaction fails. -/
inductive CompactFault where
  /-- The temporary file is not written or not renamed: the log stays as it is. -/
  | beforeRename
  /-- The new log is in place and opening it fails: the handle stays on the old file. -/
  | afterRename
deriving DecidableEq, Repr

/-- How the next operations on the file system go. -/
structure IoPlan where
  append : Option AppendFault
  writeFails : Bool
  removeFails : Bool
  compact : Option CompactFault
deriving DecidableEq, Repr

/-- Everything succeeds. -/
def IoPlan.ok : IoPlan := ⟨none, false, false, none⟩

/-- Nothing reaches the disk. -/
def IoPlan.stopped : IoPlan := ⟨some (.write 0), true, true, some .beforeRename⟩

/-- The given plans, and success after them. -/
def IoPlan.first (ps : List IoPlan) : Stream' IoPlan := fun n => ps.getD n .ok

/-! ## The store -/

/-- A `.kdc` file. -/
structure ChunkFile where
  bytes : Bytes
  /-- Modification time, in nanoseconds since the epoch. -/
  mtime : Int
deriving DecidableEq, Repr

structure Store where
  dataDir : String
  durability : Durability
  /-- `Index::state`. -/
  index : IndexState
  /-- `Index::log_entries`. -/
  logEntries : Nat
  /-- The file at `log_path`. -/
  log : Bytes
  /-- `log_file` is a handle on the file at `log_path`. -/
  attached : Bool
  /-- The chunk files, by the hex id they are named after. -/
  files : ExtTreeMap String ChunkFile
  /-- `SystemTime::now`, in nanoseconds since the epoch. -/
  clock : Int
  io : Stream' IoPlan

/-- An index just opened on an empty directory. -/
def Store.emptyDir (dataDir : String) (io : Stream' IoPlan) : Store where
  dataDir
  durability := .none
  index := .empty
  logEntries := 0
  log := []
  attached := true
  files := ∅
  clock := 0
  io

abbrev M := EStateM Fail Store

/-- An error of the file system. -/
def ioError : Fail := .error (.io "I/O error")

/-- `let _ = …`, `if let Err(_) = …`: an error is dropped, a panic is not. -/
def ignoreError {α : Type} (x : M α) : M Unit :=
  tryCatch (discard x) fun
    | .error _ => pure ()
    | e => throw e

/-- Takes the plan for the next operation. -/
def nextPlan : M IoPlan := modifyGet fun s => (s.io.head, { s with io := s.io.tail })

end KaidaDB
