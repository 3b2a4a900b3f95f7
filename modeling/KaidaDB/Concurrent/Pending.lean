import KaidaDB.Storage.IndexRun

/-!
# Entries written and not yet applied

A change of the index is appended to the log under one lock and made in memory under another, so at
any time some entries are in the log that memory lacks. `Store.Lags X s pending` says that these are
`pending`, in the order of the log: memory becomes what the log rebuilds once they are applied in that
order. Entries for different slots commute (`applyEntry_comm`), so a caller may apply its own first
(`Store.Lags.apply`).
-/

namespace KaidaDB

open Std

/-- The place in the index that an entry changes. -/
inductive Slot where
  | manifest (key : String)
  | chunk (hex : String)
deriving DecidableEq, Repr

def LogEntry.slot : LogEntry → Slot
  | putManifest m => .manifest m.key
  | deleteManifest key => .manifest key
  | putChunkLocation hex _ => .chunk hex
  | deleteChunkLocation hex => .chunk hex

variable {X : Crates}

/-- Entries for different slots may be applied in either order. -/
theorem applyEntry_comm {e f : LogEntry} (h : e.slot ≠ f.slot) :
    Replay.Commutes applyEntry e f := by
  intro s
  cases e <;> cases f <;> simp only [LogEntry.slot, ne_eq, Slot.manifest.injEq, Slot.chunk.injEq,
    reduceCtorEq, not_false_eq_true] at h <;> simp only [applyEntry]
  case putManifest.putManifest => rw [FinMap.insert_comm h]
  case putManifest.deleteManifest => rw [FinMap.erase_insert_comm h]
  case deleteManifest.putManifest => rw [FinMap.erase_insert_comm (Ne.symm h)]
  case deleteManifest.deleteManifest => rw [FinMap.erase_comm]
  case putChunkLocation.putChunkLocation => rw [FinMap.insert_comm h]
  case putChunkLocation.deleteChunkLocation => rw [FinMap.erase_insert_comm h]
  case deleteChunkLocation.putChunkLocation => rw [FinMap.erase_insert_comm (Ne.symm h)]
  case deleteChunkLocation.deleteChunkLocation => rw [FinMap.erase_comm]

/-- The log consists of complete lines, and `pending` are those of its entries that memory lacks. -/
def Store.Lags (X : Crates) (s : Store) (pending : List LogEntry) : Prop :=
  ∃ es, s.log = logBytes X es ∧ replayLog es = Replay.replay applyEntry s.index pending

namespace Store.Lags

variable {s t : Store} {pending xs ys : List LogEntry} {e : LogEntry}

theorem congr (h : s.Lags X pending) (hlog : t.log = s.log) (hidx : t.index = s.index) :
    t.Lags X pending := by
  obtain ⟨es, h1, h2⟩ := h
  exact ⟨es, hlog.trans h1, by rw [h2, hidx]⟩

/-- An entry is appended. -/
theorem append (h : s.Lags X pending) (hlog : t.log = s.log ++ entryLine X e)
    (hidx : t.index = s.index) : t.Lags X (pending ++ [e]) := by
  obtain ⟨es, h1, h2⟩ := h
  refine ⟨es ++ [e], ?_, ?_⟩
  · rw [hlog, h1, logBytes, logBytes, List.map_append, Lines.records_append]
    simp [entryLine]
  · rw [replayLog, Replay.replay_snoc, Replay.replay_snoc, hidx, ← h2]
    rfl

/-- A pending entry is applied, before others that change other slots. -/
theorem apply (h : s.Lags X (xs ++ e :: ys)) (hslots : ∀ f ∈ xs, f.slot ≠ e.slot)
    (hlog : t.log = s.log) (hidx : t.index = applyEntry s.index e) : t.Lags X (xs ++ ys) := by
  obtain ⟨es, h1, h2⟩ := h
  refine ⟨es, hlog.trans h1, ?_⟩
  rw [h2, hidx, Replay.replay_pull applyEntry s.index ys fun f hf => applyEntry_comm (hslots f hf)]

end Store.Lags

end KaidaDB
