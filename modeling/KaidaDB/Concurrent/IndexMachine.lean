import KaidaDB.Concurrent.Pending

/-!
# Callers of one index, while it is compacted

Any number of callers put and delete manifests and chunk locations, and one of them may compact, be it
by a call of `compact` or at the end of an operation that changes a manifest. Atomic are the append of
an entry, the change in memory after it, and the steps of `compact`: the snapshot written to the
temporary file, its rename over the log, and the swap of `log_file` for a handle on the new file.
-/

namespace KaidaDB

open Std

variable (X : Crates)

/-- The operations that end with `maybe_compact`, which also sync their entry. -/
def EntryOp.ofManifest : EntryOp → Bool
  | putManifest _ | deleteManifest _ => true
  | putChunkLocation _ _ | deleteChunkLocation _ => false

inductive Caller where
  /-- About to append its entry. -/
  | appending (op : EntryOp)
  /-- The entry is appended: about to change the state. -/
  | applying (op : EntryOp)
  /-- In `maybe_compact`. -/
  | checking
  /-- In `compact`: about to take the snapshot and to write it to the temporary file. -/
  | snapshotting
  /-- About to rename the temporary file, of so many entries. -/
  | replacing (written : Nat)
  /-- About to open the log again and to swap the handle. -/
  | reopening (written : Nat)
deriving DecidableEq, Repr

structure IndexMachine where
  store : Store
  /-- `index.log.tmp`. -/
  tmp : Bytes
  callers : ExtTreeMap Nat Caller
  /-- The caller that compacts. -/
  compacting : Option Nat

inductive IndexAction where
  | call (caller : Nat) (op : EntryOp)
  | compact (caller : Nat)
  /-- The caller goes on. -/
  | advance (caller : Nat)
deriving DecidableEq, Repr

namespace IndexMachine

variable (m : IndexMachine) (t : Nat)

def become (c : Caller) : IndexMachine := { m with callers := m.callers.insert t c }

def leave : IndexMachine := { m with callers := m.callers.erase t }

/-- Compaction begins unless another caller compacts. -/
def beginCompaction (skip : IndexMachine) : IndexMachine :=
  if m.compacting.isSome then skip else { m.become t .snapshotting with compacting := some t }

def advance : Caller → IndexMachine
  | .appending op =>
    match Index.appendEntry X op.entry op.ofManifest m.store with
    | .ok _ s => { m with store := s }.become t (.applying op)
    | .error _ s => { m with store := s }.leave t
  | .applying op =>
    let m := { m with store := { m.store with index := applyEntry m.store.index op.entry } }
    if op.ofManifest then m.become t .checking else m.leave t
  | .checking =>
    if m.store.logEntries < compactionFloor then m.leave t
    else if m.store.logEntries < compactionRatio * m.store.index.live then m.leave t
    else m.beginCompaction t (m.leave t)
  | .snapshotting =>
    let entries := Index.liveEntries m.store.index
    { m with tmp := logBytes X entries }.become t (.replacing entries.length)
  | .replacing written =>
    { m with store := { m.store with log := m.tmp, attached := false } }.become t
      (.reopening written)
  | .reopening written =>
    { m with
      store := { m.store with attached := true, logEntries := written }
      compacting := none }.leave t

def step (m : IndexMachine) : IndexAction → IndexMachine
  | .call t op => if m.callers.contains t then m else m.become t (.appending op)
  | .compact t => if m.callers.contains t then m else m.beginCompaction t m
  | .advance t => (m.callers[t]?).elim m (m.advance X t)

def run (m : IndexMachine) : List IndexAction → IndexMachine
  | [] => m
  | action :: actions => (m.step X action).run actions

/-- An index opened on an empty directory; the file system works. -/
def start (dataDir : String) (durability : Durability) : IndexMachine :=
  ⟨{ Store.emptyDir dataDir (Stream'.const .ok) with durability }, [], ∅, none⟩

end IndexMachine

/-! ## What disturbs a compaction -/

/-- The entry a caller is about to append. -/
def Caller.appending? : Caller → Option EntryOp
  | appending op => some op
  | _ => none

/-- The entry it has appended and not applied. -/
def Caller.applying? : Caller → Option EntryOp
  | applying op => some op
  | _ => none

/-- It is between the snapshot of its compaction and the swap. -/
def Caller.replaces : Caller → Bool
  | replacing _ | reopening _ => true
  | _ => false

namespace IndexMachine

/-- The caller that goes on. -/
def next? (m : IndexMachine) : IndexAction → Option Caller
  | .advance t => m.callers[t]?
  | _ => none

/-- An entry is appended neither between the snapshot of a compaction and its swap nor while another
one for the same slot waits to be applied, and a snapshot is taken while no entry waits. -/
def Undisturbed (m : IndexMachine) (action : IndexAction) : Prop :=
  (∀ op ∈ (m.next? action).bind Caller.appending?, ∀ p ∈ m.callers.toList,
    p.2.replaces = false ∧ ∀ other ∈ p.2.applying?, other.entry.slot ≠ op.entry.slot) ∧
  (m.next? action = some .snapshotting → ∀ p ∈ m.callers.toList, p.2.applying? = none)

/-- Every action of a run meets the condition. -/
def UndisturbedRun : IndexMachine → List IndexAction → Prop
  | _, [] => True
  | m, action :: actions => m.Undisturbed action ∧ (m.step X action).UndisturbedRun actions

instance (m : IndexMachine) (action : IndexAction) : Decidable (m.Undisturbed action) :=
  inferInstanceAs (Decidable (_ ∧ (_ → _)))

instance UndisturbedRun.decidable : ∀ (m : IndexMachine) (actions : List IndexAction),
    Decidable (m.UndisturbedRun X actions)
  | _, [] => .isTrue trivial
  | m, action :: actions =>
    haveI := UndisturbedRun.decidable (m.step X action) actions
    inferInstanceAs (Decidable (_ ∧ _))

end IndexMachine

end KaidaDB
