import KaidaDB.Concurrent.Deed

/-!
# Garbage collection while other calls run

`gc` next to the machine of concurrent calls: it takes a snapshot of the index, reads the clock,
lists the chunk files, and looks at them one by one; a file whose id is not in the snapshot and that
was not modified within the grace period is removed in a step of its own. Between any two of these
steps the calls go on. `GcMachine.Timely` is the condition under which no file is removed that
something relies on: what has come to rely on a chunk after the snapshot relies on a file that the
pass takes for recent.
-/

namespace KaidaDB

open Std

variable (X : Crates)

/-- What a pass decides from. -/
structure GcView where
  grace : Nat
  /-- The ids the index had. -/
  indexed : List String
  /-- The time the pass has read. -/
  now : Int
deriving DecidableEq, Repr

/-- Where in `gc` the pass is. -/
inductive Pass where
  /-- It has the ids of the index and reads the clock next. -/
  | clocking (grace : Nat) (indexed : List String)
  /-- It is about to list the files. -/
  | listing (view : GcView)
  /-- It is about to look at the first of the files that are left. -/
  | visiting (view : GcView) (files : List String) (report : GcReport)
  /-- It has found the file old, and is about to remove it. -/
  | removing (view : GcView) (hex : String) (files : List String) (report : GcReport)
  /-- It looks for the files of the ids it had from the index. -/
  | probing (hexes : List String) (report : GcReport)
deriving DecidableEq, Repr

/-- `fs::remove_file` on a chunk file. -/
def BlobStore.removeFile (hex : String) : M Unit := do
  let plan ← nextPlan
  if plan.removeFails || !(← get).files.contains hex then throw ioError
  modify fun s => { s with files := s.files.erase hex }

structure GcMachine where
  base : Machine
  /-- The pass that is running. -/
  pass : Option Pass

inductive GcAction where
  | call (action : Action)
  /-- `gc` is called and takes its snapshot of the index; one pass runs at a time. -/
  | gc (grace : Nat)
  /-- The pass goes on. -/
  | collect
deriving DecidableEq, Repr

namespace GcMachine

variable (m : GcMachine)

def collect : Pass → GcMachine
  | .clocking grace indexed =>
    { m with pass := some (.listing ⟨grace, indexed, m.base.store.clock⟩) }
  | .listing view =>
    match BlobStore.iterChunkFiles m.base.store with
    | .ok files s =>
      ⟨{ m.base with store := s }, some (.visiting view (files.map Prod.fst) {})⟩
    | .error _ s => ⟨{ m.base with store := s }, none⟩
  | .visiting view [] report => { m with pass := some (.probing view.indexed report) }
  | .visiting view (hex :: files) report =>
    if hex ∈ view.indexed then { m with pass := some (.visiting view files report) }
    -- a file that is gone is not recent
    else if (m.base.store.files[hex]?).any fun file =>
        StorageEngine.isRecent view.now file.mtime view.grace then
      { m with pass := some (.visiting view files
          { report with orphansSkipped := report.orphansSkipped + 1 }) }
    else { m with pass := some (.removing view hex files report) }
  | .removing view hex files report =>
    match BlobStore.removeFile hex m.base.store with
    | .ok _ s => ⟨{ m.base with store := s }, some (.visiting view files
        { report with orphansRemoved := report.orphansRemoved + 1 })⟩
    | .error _ s => ⟨{ m.base with store := s }, some (.visiting view files report)⟩
  | .probing [] _ => { m with pass := none }
  | .probing (hex :: hexes) report =>
    match ChunkId.fromHex hex with
    | .panic => { m with pass := none }
    | .err => { m with pass := some (.probing hexes report) }
    | .ok id =>
      if m.base.store.files.contains id.toHex then
        { m with pass := some (.probing hexes report) }
      else { m with pass := some (.probing hexes { report with dangling := report.dangling + 1 }) }

def step (m : GcMachine) : GcAction → GcMachine
  | .call action => { m with base := m.base.step X action }
  | .gc grace =>
    if m.pass.isSome then m
    else { m with pass := some (.clocking grace m.base.store.index.chunkLocations.keys) }
  | .collect => m.pass.elim m m.collect

def run (m : GcMachine) : List GcAction → GcMachine
  | [] => m
  | action :: actions => (m.step X action).run actions

/-- An engine opened on an empty directory that nobody uses yet; the file system works. -/
def start (engine : StorageEngine) (dataDir : String) : GcMachine :=
  ⟨.start engine dataDir, none⟩

/-! ## What the pass has to spare -/

/-- The chunk is indexed, or a flush in progress has found or written its file. -/
def Needed (hex : String) : Prop :=
  m.base.store.index.chunkLocations.contains hex = true ∨
    ∃ p ∈ m.base.agents.toList, ∃ id ∈ p.2.holding? X, id.toHex = hex

/-- The file the action removes. -/
def removed? : GcAction → Option String
  | .collect =>
    match m.pass with
    | some (.removing _ hex _ _) => if m.base.store.files.contains hex then some hex else none
    | _ => none
  | _ => none

/-- The action removes no file that is needed. -/
def Spares (action : GcAction) : Prop := ∀ hex ∈ m.removed? action, ¬ m.Needed X hex

end GcMachine

/-! ## When it does -/

/-- The pass keeps a file with this modification time. -/
def GcView.Keeps (view : GcView) (hex : String) (mtime : Int) : Prop :=
  hex ∈ view.indexed ∨ StorageEngine.isRecent view.now mtime view.grace = true

/-- The file a flush relies on from now on, with its modification time. -/
def Deed.relied? (s : Store) : Deed → Option (String × Int)
  | found id => (s.files[id.toHex]?).map fun file => (id.toHex, file.mtime)
  | created id _ => some (id.toHex, s.clock)
  | _ => none

/-- A flush may rely on the file: the pass keeps it, or has no more to do with it. -/
def Pass.Allows (hex : String) (mtime : Int) : Pass → Prop
  | .listing view => view.Keeps hex mtime
  | .visiting view files _ => hex ∈ files → view.Keeps hex mtime
  | .removing view hex' files _ => hex ≠ hex' ∧ (hex ∈ files → view.Keeps hex mtime)
  | _ => True

namespace GcMachine

/-- When the pass reads the clock, it keeps every file that is needed. -/
def ReadsInTime (m : GcMachine) : Pass → Prop
  | .clocking grace indexed => ∀ p ∈ m.base.store.files.toList, m.Needed X p.1 →
    GcView.Keeps ⟨grace, indexed, m.base.store.clock⟩ p.1 p.2.mtime
  | _ => True

/-- The action is in time for the pass. When it reads the clock, it keeps every file that is needed;
after that no flush comes to rely on a file that the pass may still remove. -/
def Timely (m : GcMachine) : GcAction → Prop
  | .call action => ∀ pass ∈ m.pass, ∀ p ∈ (m.base.deed X action).relied? m.base.store,
    pass.Allows p.1 p.2
  | .gc _ => True
  | .collect => ∀ pass ∈ m.pass, m.ReadsInTime X pass

/-- Every action of a run meets a condition on the state before it. -/
def Throughout (P : GcMachine → GcAction → Prop) : GcMachine → List GcAction → Prop
  | _, [] => True
  | m, action :: actions => P m action ∧ Throughout P (m.step X action) actions

end GcMachine

end KaidaDB
