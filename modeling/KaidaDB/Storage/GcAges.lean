import KaidaDB.Storage.Engine

/-!
# The ages garbage collection goes by

`gcReading` is `gc` on files whose metadata may be unreadable; with readable ones it is
`StorageEngine.gc` (`gcReading_readable`). `HonoursGrace` is what the grace period is for.
-/

namespace KaidaDB

open Std

/-- `now.duration_since(mt)`: an error for a later time. -/
def durationSince (now mt : Int) : Option Nat := if mt ≤ now then some (now - mt).toNat else none

/-- The age test; a step that fails makes the file an old one. -/
def testAge (now : Int) (modified : Option Int) (grace : Nat) : Bool :=
  ((modified.bind (durationSince now)).map fun age => decide (age < grace)).getD false

namespace StorageEngine

/-- The pass of `gc` over the files, of which it can stat those that are `readable`. -/
def gcFilesReading (readable : String → Bool) (indexed : List String) (now : Int) (grace : Nat) :
    List (String × ChunkFile) → GcReport → M GcReport
  | [], report => pure report
  | (hex, file) :: rest, report => do
    if hex ∈ indexed then gcFilesReading readable indexed now grace rest report
    else if testAge now (if readable hex then some file.mtime else none) grace then
      gcFilesReading readable indexed now grace rest
        { report with orphansSkipped := report.orphansSkipped + 1 }
    else
      let plan ← nextPlan
      if plan.removeFails then gcFilesReading readable indexed now grace rest report
      else
        modify fun s => { s with files := s.files.erase hex }
        gcFilesReading readable indexed now grace rest
          { report with orphansRemoved := report.orphansRemoved + 1 }

def gcReading (readable : String → Bool) (grace : Nat) : M GcReport := do
  let indexed ← Index.chunkIdHexes
  let now := (← get).clock
  let report ← gcFilesReading readable indexed now grace (← BlobStore.iterChunkFiles) {}
  gcDangling indexed report

end StorageEngine

/-- At least `grace` old. -/
def ChunkFile.Aged (f : ChunkFile) (now : Int) (grace : Nat) : Prop := f.mtime + grace ≤ now

instance (f : ChunkFile) (now : Int) (grace : Nat) : Decidable (f.Aged now grace) :=
  inferInstanceAs (Decidable (f.mtime + grace ≤ now))

/-- The listed files that are not indexed. -/
def Store.orphans (s : Store) : List (String × ChunkFile) :=
  s.files.toList.filter fun p => p.1.utf8ByteSize = 64 ∧ p.1 ∉ s.index.chunkLocations.keys

/-- From `s`, a pass with the given grace that ended in `s'` took only orphans of that age, and has
counted the younger ones. -/
structure HonoursGrace (s : Store) (grace : Nat) (report : GcReport) (s' : Store) : Prop where
  removed : ∀ (hex : String) (f : ChunkFile), s.files[hex]? = some f → s'.files[hex]? ≠ some f →
    (hex, f) ∈ s.orphans ∧ f.Aged s.clock grace
  skipped : report.orphansSkipped = s.orphans.countP fun p => ¬ p.2.Aged s.clock grace

end KaidaDB
