import KaidaDB.Lib.Faults
import KaidaDB.Lib.Slices
import KaidaDB.Storage.World

/-!
# One failure of the file system

`IoPlan.once n fault`: the operation after the first `n` goes as `fault` says, and all others succeed.
`flushOps` counts the operations that flushing some pieces of an object takes, so that `n` can be
compared with the place where the manifest is appended.
-/

namespace KaidaDB

variable (X : Crates)

/-- Success, but for one operation. -/
def IoPlan.once (n : Nat) (fault : IoPlan) : Stream' IoPlan := Effects.once .ok n fault

/-- The operations that flushing the pieces one after the other takes, where `stored` tells which
chunk files there are: each piece takes an append for its reference, and a write unless its chunk
has a file. -/
def flushOps (stored : String → Bool) : List Bytes → Nat
  | [] => 0
  | d :: rest =>
    let hex := (ChunkId.fromData X d).toHex
    (if stored hex then 1 else 2) + flushOps (fun a => stored a || decide (a = hex)) rest

/-- The world with these plans for the operations to come. -/
def World.withIo (w : World) (io : Stream' IoPlan) : World :=
  { w with store := { w.store with io } }

/-- The pieces that the bytes are cut into. -/
def World.pieces (w : World) (d : Bytes) : List Bytes := Slices.slices w.engine.chunkSize d

/-- The operations that flushing the pieces takes. -/
def World.opsOf (w : World) (ps : List Bytes) : Nat :=
  flushOps X (fun hex => w.store.files.contains hex) ps

end KaidaDB
