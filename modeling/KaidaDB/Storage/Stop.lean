import KaidaDB.Storage.IndexRun
import KaidaDB.Storage.World

/-!
# Calls that stop midway

A call on the engine stops midway when the process ends between two of its operations on the disk
and the engine is opened again, or when one of these operations returns an error. `Stop` is such a
point, `World.interrupted` the world a call leaves behind that stops there, again with a working
file system. `deleteSteps` and `renameSteps` are the appends and removals the calls consist of, and
`made` those of them that are made before the stop.
-/

namespace KaidaDB

variable (X : Crates)

/-- The operation on the disk after which a call stops. -/
inductive Stop where
  /-- The process ends after `n` operations, and the engine is opened with these settings. -/
  | crash (n : Nat) (engine : StorageEngine) (durability : Durability)
  /-- `n` operations succeed, and the next one returns an error. -/
  | ioError (n : Nat) (fault : AppendFault)
deriving DecidableEq, Repr

def Stop.io : Stop → Stream' IoPlan
  | .crash n _ _ => fun i => if i < n then .ok else .stopped
  | .ioError n fault => fun i => if i = n then ⟨some fault, true, true, none⟩ else .ok

/-- A call that stops. -/
def World.interrupted (w : World) (stop : Stop) (call : Call) : World :=
  let w1 := ({ w with store := { w.store with io := stop.io } }.step X call).1
  let w2 := { w1 with store := { w1.store with io := Stream'.const .ok } }
  match stop with
  | .crash _ engine durability => (w2.step X (.reopen engine durability)).1
  | .ioError _ _ => w2

/-! ## The steps of a call -/

/-- An operation on the disk. -/
inductive DiskStep where
  /-- The entry that drops a reference. -/
  | drop (id : ChunkId)
  /-- The removal of a chunk file. -/
  | unlink (id : ChunkId)
  /-- An entry for a manifest. -/
  | manifest
deriving DecidableEq, Repr

/-- The step fails under a plan; `sync_data` is called for manifests only. -/
def DiskStep.fails (durability : Durability) (plan : IoPlan) : DiskStep → Bool
  | drop _ => plan.append ≠ none ∧ plan.append ≠ some .sync
  | unlink _ => plan.removeFails
  | manifest => plan.append ≠ none ∧ (plan.append = some .sync → durability = .sync)

/-- The steps that are made before one fails. -/
def made (durability : Durability) : Stream' IoPlan → List DiskStep → List DiskStep
  | _, [] => []
  | io, step :: steps =>
    if step.fails durability io.head then [] else step :: made durability io.tail steps

/-- The steps that release references, given the reference counts before. -/
def releaseSteps (refs : ChunkId → Nat) : List ChunkId → List DiskStep
  | [] => []
  | id :: ids =>
    let rest := releaseSteps (fun a => if id = a then refs a - 1 else refs a) ids
    if refs id ≤ 1 then .drop id :: .unlink id :: rest else .drop id :: rest

def deleteSteps (s : IndexState) (key : String) : List DiskStep :=
  match s.manifests[key]? with
  | none => []
  | some m => releaseSteps s.refCount m.chunks ++ [.manifest]

/-- The new manifest, then the removal of the old one. -/
def renameSteps : List DiskStep := [.manifest, .manifest]

end KaidaDB
